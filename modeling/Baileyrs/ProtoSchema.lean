import Baileyrs.ProtoValues
import Mathlib.Data.List.DropRight

/-!
# Schemas of protobuf messages

The conversion metadata lists the fields of every message, with their kinds
and flags, and the names and values of every enum. It is generated; what the
conversions rely on is part of the structure. Four messages have a field whose
public name differs from the one the bridge codec reads.
-/

namespace Baileyrs.ProtoRuntime

open JsString

/-- Kind of a field. -/
inductive FieldKind where
  | message
  | enum
  | string
  | bool
  | bytes
  | float
  | signed32
  | unsigned32
  | signed64
  | unsigned64
  deriving DecidableEq

/-- Field of a message. -/
structure ProtoField where
  /-- Public name. -/
  name : JsString
  /-- Kind of its values. -/
  kind : FieldKind
  /-- Schema of the message or enum its values belong to. -/
  reference : ℕ
  /-- It holds an array. -/
  isRepeated : Bool
  /-- It holds an object of values by key. -/
  isMap : Bool
  /-- It has explicit presence. -/
  isOptional : Bool
  /-- It belongs to a group. -/
  inOneof : Bool
  /-- Name of the group. -/
  oneof : JsString
  deriving DecidableEq

/-- Schema of a message. -/
structure MessageSchema where
  /-- Name with its namespaces. -/
  path : String
  /-- Fields in order. -/
  fields : List ProtoField

/-- Names and values of an enum. -/
abbrev EnumSchema := List (JsString × ℤ)

/-- Bridge names of the fields whose public names differ from them. -/
def fieldAliases : List (String × JsString × JsString) :=
  [("SyncActionValue.AgentAction",ofString "deviceID",ofString "deviceId"),
    ("SyncActionValue.ChatAssignmentAction",ofString "deviceAgentID",ofString "deviceAgentId"),
    ("Message.ExtendedTextMessage",ofString "faviconMMSMetadata",ofString "faviconMmsMetadata"),
    ("Message.MessageHistoryMetadata",ofString "oldestMessageTimestamp",
      ofString "oldestMessageTimestampInWindow")]

/-- Names every plain object inherits. -/
def objectNames : List JsString :=
  ["constructor","__defineGetter__","__defineSetter__","hasOwnProperty","__lookupGetter__",
    "__lookupSetter__","isPrototypeOf","propertyIsEnumerable","toString","valueOf","__proto__",
    "toLocaleString"].map ofString

/-- Group of a field. -/
def oneofName (field : ProtoField) : Option JsString :=
  if field.isOptional then some (unit '_'::field.name)
  else if field.inOneof then some field.oneof
  else none

/-- Aliased field of a message, under its public name and its bridge name. -/
def aliasOf (schema : MessageSchema) : Option (JsString × JsString) :=
  InsertionMap.find fieldAliases schema.path

/-- A field is 64 bits wide and always present. -/
def ProtoField.isLong (field : ProtoField) : Bool :=
  (field.kind = .signed64 || field.kind = .unsigned64) && (oneofName field).isNone

/-- The message schemas and the enum schemas. -/
structure Schemas where
  /-- Messages by their index. -/
  messages : List MessageSchema
  /-- Enums by their index. -/
  enums : List EnumSchema
  /-- The fields of a message have distinct names. -/
  distinct : ∀ schema ∈ messages, (schema.fields.map ProtoField.name).Nodup
  /-- A bridge name is not the name of a field. -/
  bridged : ∀ schema ∈ messages, ∀ names, aliasOf schema = some names →
    names.2 ∉ schema.fields.map ProtoField.name
  /-- A field is an array, an object of values, or neither. -/
  single : ∀ schema ∈ messages, ∀ field ∈ schema.fields, ¬(field.isRepeated ∧ field.isMap)
  /-- No field has a name that plain objects inherit, or that of `toJSON`. -/
  notInherited : ∀ schema ∈ messages, ∀ field ∈ schema.fields,
    field.name ∉ objectNames ∧ field.name ≠ ofString "toJSON"
  /-- No group has the name of a collection. -/
  ungrouped : ∀ schema ∈ messages, ∀ field ∈ schema.fields, field.isRepeated ∨ field.isMap →
    ∀ other ∈ messages, ∀ member ∈ other.fields, oneofName member ≠ some field.name
  /-- No 64-bit field that is always present has the name of an object of values. -/
  unmapped : ∀ schema ∈ messages, ∀ field ∈ schema.fields, field.isMap →
    ∀ other ∈ messages, ∀ member ∈ other.fields, member.isLong → member.name ≠ field.name
  /-- An aliased message field is neither an array nor an object of values, and its
  messages have no aliased field and no message-typed fields themselves. -/
  leaf : ∀ schema ∈ messages, ∀ field ∈ schema.fields, field.kind = .message →
    (∃ names ∈ aliasOf schema, names.1 = field.name) → field.isRepeated = false ∧ field.isMap = false ∧
      ∀ inner ∈ messages[field.reference]?, aliasOf inner = none ∧
        ∀ member ∈ inner.fields, member.kind ≠ .message
  /-- The schema of a message field is listed. -/
  referenced : ∀ schema ∈ messages, ∀ field ∈ schema.fields, field.kind = .message →
    field.reference < messages.length
  /-- The enum of an enum field is listed. -/
  enumerated : ∀ schema ∈ messages, ∀ field ∈ schema.fields, field.kind = .enum →
    field.reference < enums.length
  /-- Enum names are distinct. -/
  named : ∀ entries ∈ enums, (entries.map Prod.fst).Nodup

namespace Schemas

variable (schemas : Schemas)

/-- Path of a message. -/
def pathOf (schemaId : ℕ) : String := (schemas.messages[schemaId]?.map MessageSchema.path).getD ""

/-- Fields of a message. -/
def fieldsOf (schemaId : ℕ) : List ProtoField :=
  (schemas.messages[schemaId]?.map MessageSchema.fields).getD []

/-- Aliased field of a message. -/
def aliasFor (schemaId : ℕ) : Option (JsString × JsString) :=
  schemas.messages[schemaId]?.bind aliasOf

/-- Entries of an enum. -/
def entriesOf (enumId : ℕ) : EnumSchema := schemas.enums[enumId]?.getD []

/-- Value of an enum name. -/
def enumValueFor (enumId : ℕ) (name : JsString) : Option ℤ := InsertionMap.find (schemas.entriesOf enumId) name

/-- Name of an enum value; of several names the last. -/
def enumNameFor (enumId : ℕ) (value : JsNumber) : Option JsString :=
  ((schemas.entriesOf enumId).reverse.find? fun entry =>
    (JsNumber.ofInt entry.2).sameKey value).map Prod.fst

/-- First value of an enum. -/
def firstValue (enumId : ℕ) : ℤ := ((schemas.entriesOf enumId).head?.map Prod.snd).getD 0

/-- Message-typed fields. -/
def messageFields (schemaId : ℕ) : List ProtoField :=
  (schemas.fieldsOf schemaId).filter fun field => field.kind = .message

/-- Schema position by field name, in either spelling. -/
def fieldPositionsOf (schemaId : ℕ) : List (JsString × ℕ) :=
  (schemas.fieldsOf schemaId).zipIdx.foldl (fun positions field =>
    let positions := InsertionMap.put positions field.1.name field.2
    match schemas.aliasFor schemaId with
    | some names =>
      if names.1 = field.1.name then InsertionMap.put positions names.2 field.2 else positions
    | none => positions) []

/-- Position among the message-typed fields by field name. -/
def messageFieldPositionsOf (schemaId : ℕ) : List (JsString × ℕ) :=
  (schemas.messageFields schemaId).zipIdx.foldl
    (fun positions field => InsertionMap.put positions field.1.name field.2) []

end Schemas

/-- A field with explicit presence. -/
def optionalField (name : String) (kind : FieldKind) (reference : ℕ) : ProtoField :=
  ⟨ofString name,kind,reference,false,false,true,false,[]⟩

/-- Fields of the text messages with a link, and of the favicons in them. -/
def linkMessages : List MessageSchema :=
  [⟨"Message.ExtendedTextMessage",[optionalField "text" .string 0,
      optionalField "faviconMMSMetadata" .message 1]⟩,
    ⟨"Message.MMSThumbnailMetadata",[optionalField "thumbnailDirectPath" .string 0,
      optionalField "mediaKeyTimestamp" .signed64 0,optionalField "thumbnailHeight" .unsigned32 0,
      optionalField "mediaKeyDomain" .enum 0]⟩]

/-- Kinds of media keys. -/
def mediaKeyDomain : EnumSchema :=
  [(ofString "UNSET",0),(ofString "E2EE_CHAT",1),(ofString "STATUS",2),(ofString "CAPI",3),(ofString "BOT",4)]

/-- A part of the generated schemas. -/
def linkSchemas : Schemas where
  messages := linkMessages
  enums := [mediaKeyDomain]
  distinct := by decide
  bridged := by decide
  single := by decide
  notInherited := by decide
  ungrouped := by decide
  unmapped := by decide
  leaf := by decide
  referenced := by decide
  enumerated := by decide
  named := by decide

/-- Insert a position, from the end, unless it is there. -/
def insertPosition (found : List ℕ) (position : ℕ) : List ℕ :=
  let lower := found.rdropWhile (position < ·)
  if lower.getLast? = some position then found
  else lower++position::found.rtakeWhile (position < ·)

/-- Positions of the fields an object holds as own properties, ascending; none
when it does not have fewer properties than there are fields, or when its
prototype could carry a value. -/
def ownFieldPositions (prototype : Prototype) (keys : List JsString) (positions : List (JsString × ℕ))
    (candidates : ℕ) (allowInstances : Bool) : Option (List ℕ) :=
  let excluded :=
    match prototype with
    | .plain => false
    | .bare => false
    | .message _ => !allowInstances
  if excluded || candidates ≤ keys.length then none
  else some (keys.foldl (fun found key =>
    match InsertionMap.find positions key with
    | some position => insertPosition found position
    | none => found) [])

/-- Which fields a conversion visits: those an object holds, where they can be
told from its own properties, or every field of the schema. -/
inductive Walk where
  | ownFields
  | everyField
  deriving DecidableEq

/-- Positions a walk visits. -/
def Walk.positions (walk : Walk) (found : Option (List ℕ)) (candidates : ℕ) : List ℕ :=
  match walk,found with
  | .ownFields,some positions => positions
  | _,_ => List.range candidates

/-- An own property. -/
def hasOwn {β : Type} (members : List (JsString × β)) (name : JsString) : Bool :=
  (InsertionMap.find members name).isSome

/-- Either spelling of a field is an own property. -/
def hasOwnField (members : Members) (field : ProtoField) (names : Option (JsString × JsString)) : Bool :=
  hasOwn members field.name || names.any fun names => names.1 = field.name && hasOwn members names.2

end Baileyrs.ProtoRuntime
