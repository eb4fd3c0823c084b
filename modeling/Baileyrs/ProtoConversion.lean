import Baileyrs.ProtoSchema
import Baileyrs.TransactionalStore

/-!
# Conversions between messages and plain objects

`fromObject` builds an instance of a schema from a plain object, and
`toObject` a plain object from a message. Both visit fields in the order of
the schema, either every one or only those the object holds, and convert the
values by the kind of the field. The fuel is the depth of the call stack.
-/

namespace Baileyrs.ProtoRuntime

open JsString AtomicStore

/-- Conversions of values that have no structure here: those of the language,
on objects and functions, and the reader of 64-bit integers. -/
structure Host where
  /-- Text of a value. -/
  stringOf : Value → Except ProtoError JsString
  /-- Number of a value. -/
  numberOf : Value → Except ProtoError JsNumber
  /-- Integer of the text of a value. -/
  bigintOf : Value → Except ProtoError ℤ
  /-- Bytes of a value that is like an array. -/
  bytesOf : Value → Except ProtoError Bytes
  /-- 64-bit integer of a value. -/
  longFromValue : Value → Bool → Except ProtoError Long

/-- Forms of 64-bit integers in a plain object. -/
inductive LongForm where
  | words
  | text
  | number
  deriving DecidableEq

/-- Forms of byte arrays in a plain object. -/
inductive BytesForm where
  | bytes
  | text
  | numbers
  deriving DecidableEq

/-- What a plain object holds, and how. -/
structure ConversionOptions where
  /-- Empty arrays of absent repeated fields. -/
  arrays : Bool
  /-- Form of byte arrays. -/
  bytes : BytesForm
  /-- Defaults of absent fields. -/
  defaults : Bool
  /-- Enum values by their names. -/
  enums : Bool
  /-- Numbers that are not finite as texts. -/
  json : Bool
  /-- Form of 64-bit integers. -/
  longs : LongForm
  /-- Empty objects of absent map fields. -/
  objects : Bool
  /-- The chosen field of each group. -/
  oneofs : Bool

/-- The options of `toJSON`. -/
def jsonOptions : ConversionOptions :=
  { arrays := false,bytes := .text,defaults := false,enums := true,json := true,longs := .text,
    objects := false,oneofs := false }

/-- Thrown when the call stack is exhausted. -/
def stackExhausted : ProtoError := .rangeError "Maximum call stack size exceeded"

section Values

variable (host : Host)

/-- Text of a value. -/
def textOf : Value → Except ProtoError JsString
  | .undefined => .ok (ofString "undefined")
  | .null => .ok (ofString "null")
  | .bool b => .ok (ofString (if b then "true" else "false"))
  | .number x => .ok x.text
  | .bigint n => .ok (intText n)
  | .string text => .ok text
  | value => host.stringOf value

/-- Number of a value. -/
def numberOf : Value → Except ProtoError JsNumber
  | .undefined => .ok .nan
  | .null => .ok .zero
  | .bool b => .ok (.ofInt (if b then 1 else 0))
  | .number x => .ok x
  | .bigint n => .ok (.ofInt n)
  | .string text => .ok (.ofText text)
  | .symbol => .error (.typeError "Cannot convert a Symbol value to a number")
  | value => host.numberOf value

/-- Number of elements a value says it has. -/
def lengthOf : Value → Option JsNumber
  | .string text => some (.ofInt text.length)
  | .bytes data => some (.ofInt data.length)
  | .array items => some (.ofInt items.length)
  | .function length => some (.ofInt length)
  | .object _ members =>
    match InsertionMap.find members (ofString "length") with
    | some (.number x) => some x
    | _ => none
  | _ => none

/-- A value is like an array that is not empty. -/
def hasItems (value : Value) : Bool :=
  value.isTruthy && (lengthOf value).any fun length => !length.isNaN && !length.isNegative && length != .zero

/-- Elements of a value that is like an array. -/
def itemsOf : Value → List Value
  | .string text => (codePoints text).map fun code => .string (ofCodePoint code)
  | .bytes data => data.map fun b => .number (.ofInt b.toNat)
  | .array items => items
  | .function length => List.replicate length .undefined
  | .object prototype members =>
    (List.range ((lengthOf (.object prototype members)).getD .zero).toInt.toNat).map fun i =>
      (InsertionMap.find members (natText i)).getD .undefined
  | _ => []

/-- Own properties by which an object is enumerated. -/
def entriesOf : Value → Members
  | .string text => text.zipIdx.map fun item => (natText item.2,.string [item.1])
  | .bytes data => data.zipIdx.map fun item => (natText item.2,.number (.ofInt item.1.toNat))
  | .array items => items.zipIdx.map fun item => (natText item.2,item.1)
  | .long value => [(ofString "low",.number (.ofInt value.low.toInt32.toInt)),
      (ofString "high",.number (.ofInt value.high.toInt32.toInt)),(ofString "unsigned",.bool value.unsigned)]
  | .object _ members => members
  | _ => []

/-- A byte array of a value; none leaves the field as it is. -/
def bytesFromObject : Value → Value
  | .string text => .bytes (Base64.decode text)
  | value => if value.isObject && (lengthOf value).isSome then value else .undefined

/-- Integer of a 64-bit value. -/
def longToBigInt (value : Value) (unsigned : Bool) : Except ProtoError ℤ :=
  match value with
  | .bigint n => .ok n
  | .number x =>
    if x.isFinite then .ok x.toInt
    else .error (.rangeError "The number cannot be converted to a BigInt because it is not an integer")
  | .long value => .ok (Long.toInt {value with unsigned := unsigned})
  | .object _ members =>
    match InsertionMap.find members (ofString "low"),InsertionMap.find members (ofString "high") with
    | some (.number low),some (.number high) =>
      let combined : ℤ := high.toUint32*2^32+low.toUint32
      .ok (if unsigned = false ∧ high.isNegative ∧ ¬high.isNaN ∧ high ≠ .negativeZero then combined-2^64
        else combined)
    | _,_ => host.bigintOf value
  | value => host.bigintOf value

/-- Text of a 64-bit value. -/
def longToString (value : Value) (unsigned : Bool) : Except ProtoError JsString :=
  match value with
  | .string text => .ok text
  | .number x => .ok x.text
  | .bigint n => .ok (intText n)
  | value => (longToBigInt host value unsigned).map intText

/-- Number of a 64-bit value. -/
def longToNumber (value : Value) (unsigned : Bool) : Except ProtoError JsNumber :=
  match value with
  | .number x => .ok x
  | .string text => .ok (.ofText text)
  | .bigint n => .ok (.ofInt n)
  | value => (longToBigInt host value unsigned).map JsNumber.ofInt

/-- Base64 text of a byte array, or of what is like one. -/
def bytesToBase64 : Value → Except ProtoError JsString
  | .bytes data => .ok (Base64.encode data)
  | value => (host.bytesOf value).map Base64.encode

end Values

section Properties

variable (schemas : Schemas)

/-- Default of a field on the prototype of its message. -/
def prototypeDefault (field : ProtoField) : Value :=
  if field.isRepeated then .array []
  else if field.isMap then .object .plain []
  else if (oneofName field).isSome ∨ field.kind = .message ∨ field.kind = .bytes then .null
  else
    match field.kind with
    | .enum => .number (.ofInt (schemas.firstValue field.reference))
    | .string => .string []
    | .bool => .bool false
    | .signed64 => .long ⟨0,0,false⟩
    | .unsigned64 => .long ⟨0,0,true⟩
    | _ => .number .zero

/-- Name of the chosen field of a group: the last of its fields with a value. -/
def chosenField (fields : List ProtoField) (members : Members) (group : JsString) : Value :=
  let accepted := (fields.filter fun field => oneofName field = some group).map ProtoField.name
  match members.reverse.find? fun member => accepted.contains member.1 && !member.2.isNullish with
  | some member => .string member.1
  | none => .undefined

/-- Property that an object inherits. -/
def inherited (prototype : Prototype) (members : Members) (name : JsString) : Value :=
  let base := if objectNames.contains name then .function 1 else .undefined
  match prototype with
  | .plain => base
  | .bare => .undefined
  | .message schemaId =>
    let fields := schemas.fieldsOf schemaId
    if fields.any fun field => oneofName field = some name then chosenField fields members name
    else
      match fields.find? fun field => field.name = name with
      | some field => prototypeDefault schemas field
      | none => if name = ofString "toJSON" then .function 0 else base

/-- Property of a value. -/
def readProperty (value : Value) (name : JsString) : Except ProtoError Value :=
  match value with
  | .undefined =>
    .error (.typeError ("Cannot read properties of undefined (reading '"++shown name++"')"))
  | .null => .error (.typeError ("Cannot read properties of null (reading '"++shown name++"')"))
  | .object prototype members =>
    .ok ((InsertionMap.find members name).getD (inherited schemas prototype members name))
  | value =>
    if name = ofString "length" then .ok (((lengthOf value).map Value.number).getD .undefined)
    else .ok ((InsertionMap.find (entriesOf value) name).getD .undefined)

/-- A value has a property of its own. -/
def valueHasOwn (value : Value) (name : JsString) : Bool :=
  hasOwn (entriesOf value) name ||
    match value with
    | .string _ => name = ofString "length"
    | .bytes _ => false
    | .array _ => name = ofString "length"
    | .function _ => name = ofString "length"
    | _ => false

/-- A field or its other spelling is an own property. -/
def valueHasOwnField (value : Value) (field : ProtoField) (names : Option (JsString × JsString)) : Bool :=
  valueHasOwn value field.name || names.any fun names => names.1 = field.name && valueHasOwn value names.2

/-- Value of a field, under either spelling. -/
def fieldValue (value : Value) (field : ProtoField) (names : Option (JsString × JsString)) :
    Except ProtoError Value :=
  match names with
  | some names =>
    if names.1 = field.name ∧ ¬valueHasOwn value field.name ∧ valueHasOwn value names.2
    then readProperty schemas value names.2
    else readProperty schemas value field.name
  | none => readProperty schemas value field.name

/-- Positions a walk visits over a value. -/
def Walk.over (walk : Walk) (value : Value) (positions : List (JsString × ℕ)) (candidates : ℕ)
    (allowInstances : Bool) : List ℕ :=
  match value with
  | .object prototype members =>
    walk.positions (ownFieldPositions prototype (members.map Prod.fst) positions candidates allowInstances)
      candidates
  | _ => List.range candidates

end Properties

section Conversions

variable (schemas : Schemas) (host : Host) (walk : Walk)

/-- A new instance has its collections as own properties. -/
def newInstance (schemaId : ℕ) : Members :=
  ((schemas.fieldsOf schemaId).filter fun field => field.isRepeated || field.isMap).map fun field =>
    (field.name,if field.isRepeated then .array [] else .object .plain [])

/-- The path of a field in a message. -/
def fieldPath (schemaId : ℕ) (field : ProtoField) : String :=
  ".proto."++schemas.pathOf schemaId++"."++shown field.name

/-- Convert each value of an object; assigning the prototype adds no member. -/
def convertEntries (convert : Value → Except ProtoError Value) (entries : Members) :
    Except ProtoError Members :=
  (entries.mapM fun entry => (convert entry.2).map fun value => (entry.1,value)).map
    fun converted => converted.filter fun entry => entry.1 ≠ ofString "__proto__"

/-- Convert what a plain object holds for a field; none leaves the instance as it is. -/
def fromField (convert : Value → Except ProtoError Value) (path : String) (field : ProtoField)
    (value : Value) : Except ProtoError (Option Value) :=
  if value.isNullish then .ok none
  else if field.isRepeated then
    match value with
    | .array items => (items.mapM convert).map fun items => some (.array items)
    | _ => .error (.typeError (path++": array expected"))
  else if field.isMap then
    if value.isObject then
      (convertEntries convert (entriesOf value)).map fun entries => some (.object .plain entries)
    else .error (.typeError (path++": object expected"))
  else (convert value).map fun value => if value matches .undefined then none else some value

/-- Convert a value to the kind of its field. -/
def fromObjectField (fromObject : ℕ → Value → Except ProtoError Value) (field : ProtoField)
    (value : Value) : Except ProtoError Value :=
  match field.kind with
  | .message => fromObject field.reference value
  | .enum =>
    match value with
    | .string name =>
      .ok (((schemas.enumValueFor field.reference name).map fun i => Value.number (.ofInt i)).getD .undefined)
    | .number x => .ok (.number (.ofInt x.toInt32))
    | _ => .ok .undefined
  | .string => (textOf host value).map Value.string
  | .bool => .ok (.bool value.isTruthy)
  | .bytes => .ok (bytesFromObject value)
  | .float => (numberOf host value).map Value.number
  | .signed32 => (numberOf host value).map fun x => .number (.ofInt x.toInt32)
  | .unsigned32 => (numberOf host value).map fun x => .number (.ofInt x.toUint32)
  | .signed64 => (host.longFromValue value false).map Value.long
  | .unsigned64 => (host.longFromValue value true).map Value.long

/-- A value is an instance of a schema. -/
def isInstance (schemaId : ℕ) : Value → Bool
  | .object (.message other) _ => other = schemaId
  | _ => false

/-- Instance of a schema with the fields of a plain object. -/
def fromObject : ℕ → ℕ → Value → Except ProtoError Value
  | 0,_,_ => .error stackExhausted
  | fuel+1,schemaId,input =>
    if isInstance schemaId input then .ok input
    else do
      let fields := schemas.fieldsOf schemaId
      let names := schemas.aliasFor schemaId
      let positions := walk.over input (schemas.fieldPositionsOf schemaId) fields.length false
      let members ← positions.foldlM (fun members position =>
        match fields[position]? with
        | none => .ok members
        | some field => do
          let value ← fieldValue schemas input field names
          let converted ← fromField (fromObjectField schemas host (fromObject fuel) field)
            (fieldPath schemas schemaId field) field value
          return (converted.map fun value => InsertionMap.put members field.name value).getD members)
        (newInstance schemas schemaId)
      return .object (.message schemaId) members

/-- Default of an absent field in a plain object. -/
def toObjectDefault (field : ProtoField) (options : ConversionOptions) : Value :=
  match field.kind with
  | .message => .null
  | .enum =>
    let value := JsNumber.ofInt (schemas.firstValue field.reference)
    if options.enums then
      ((schemas.enumNameFor field.reference value).map Value.string).getD (.number value)
    else .number value
  | .string => .string []
  | .bool => .bool false
  | .bytes =>
    match options.bytes with
    | .text => .string []
    | .numbers => .array []
    | .bytes => .bytes []
  | .signed64 =>
    match options.longs with
    | .text => .string (ofString "0")
    | .number => .number .zero
    | .words => .long ⟨0,0,false⟩
  | .unsigned64 =>
    match options.longs with
    | .text => .string (ofString "0")
    | .number => .number .zero
    | .words => .long ⟨0,0,true⟩
  | _ => .number .zero

/-- Defaults a plain object starts with. -/
def defaultMembers (schemaId : ℕ) (options : ConversionOptions) : Members :=
  (schemas.fieldsOf schemaId).foldl (fun members field =>
    if field.isRepeated then
      if options.arrays || options.defaults then InsertionMap.put members field.name (.array [])
      else members
    else if field.isMap then
      if options.objects || options.defaults then InsertionMap.put members field.name (.object .plain [])
      else members
    else if options.defaults ∧ (oneofName field).isNone then
      InsertionMap.put members field.name (toObjectDefault schemas field options)
    else members) []

/-- A value in the form of a plain object. -/
def toObjectField (toObject : ℕ → Value → Except ProtoError Value) (options : ConversionOptions)
    (field : ProtoField) (value : Value) : Except ProtoError Value :=
  match field.kind with
  | .message => toObject field.reference value
  | .enum =>
    match value with
    | .number x =>
      if options.enums then
        .ok (((schemas.enumNameFor field.reference x).map Value.string).getD value)
      else .ok value
    | _ => .ok value
  | .bytes =>
    match options.bytes with
    | .text => (bytesToBase64 host value).map Value.string
    | .numbers =>
      if value.isNullish then .error (.typeError "Array.prototype.slice called on null or undefined")
      else
        match value with
        | .string text => .ok (.array (text.map fun u => .string [u]))
        | value => .ok (.array (itemsOf value))
    | .bytes => .ok value
  | .float =>
    match value with
    | .number x => .ok (if options.json ∧ ¬x.isFinite then .string x.text else value)
    | _ => if options.json then (textOf host value).map Value.string else .ok value
  | .signed64 =>
    match options.longs with
    | .text => (longToString host value false).map Value.string
    | .number => (longToNumber host value false).map Value.number
    | .words => .ok value
  | .unsigned64 =>
    match options.longs with
    | .text => (longToString host value true).map Value.string
    | .number => (longToNumber host value true).map Value.number
    | .words => .ok value
  | _ => .ok value

/-- Put a field of a message into a plain object, if it has one. -/
def toField (convert : Value → Except ProtoError Value) (options : ConversionOptions) (input : Value)
    (names : Option (JsString × JsString)) (field : ProtoField) (value : Value) (members : Members) :
    Except ProtoError Members :=
  if field.isRepeated then
    if hasItems value then do
      let items ← (itemsOf value).mapM convert
      return InsertionMap.put members field.name (.array items)
    else .ok members
  else if field.isMap then
    if value.isObject ∧ (entriesOf value).length ≠ 0 then do
      let entries ← convertEntries convert (entriesOf value)
      return InsertionMap.put members field.name (.object .plain entries)
    else .ok members
  else if value.isNullish ∨ ¬valueHasOwnField input field names then .ok members
  else do
    let converted ← convert value
    let members := InsertionMap.put members field.name converted
    match oneofName field with
    | some group =>
      return if options.oneofs then InsertionMap.put members group (.string field.name) else members
    | none => return members

/-- Plain object with the fields of a message. -/
def toObject (options : ConversionOptions) : ℕ → ℕ → Value → Except ProtoError Value
  | 0,_,_ => .error stackExhausted
  | fuel+1,schemaId,input =>
    if walk = .ownFields ∧ input.isNullish then
      .error (.typeError "Cannot convert undefined or null to object")
    else do
      let fields := schemas.fieldsOf schemaId
      let names := schemas.aliasFor schemaId
      let positions := walk.over input (schemas.fieldPositionsOf schemaId) fields.length true
      let members ← positions.foldlM (fun members position =>
        match fields[position]? with
        | none => .ok members
        | some field => do
          let value ← fieldValue schemas input field names
          toField (toObjectField schemas host (toObject options fuel) options field) options input names
            field value members)
        (if options.arrays || options.defaults || options.objects
          then defaultMembers schemas schemaId options else [])
      return .object .plain members

end Conversions

end Baileyrs.ProtoRuntime
