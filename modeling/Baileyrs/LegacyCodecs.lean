import Baileyrs.LegacyProjection

/-!
# Codecs of sync states and of trusted contact tokens

A native record is JSON text. Its projection holds byte arrays and strings in
their legacy shape. Both codecs check what they read, and throw otherwise.
-/

namespace Baileyrs.LegacyProjection

open JsString AtomicStore LegacyValues

/-- A name is that of an array element, which an object lists first. -/
def arrayIndex (name : JsString) : Option ℕ :=
  let n := ofDigits name
  if natText n = name ∧ n < 4294967295 then some n else none

/-- Members in the order an object lists them. -/
def propertyOrder {β : Type} (members : List (JsString × β)) : List (JsString × β) :=
  let indexed := members.filterMap fun m => (arrayIndex m.1).map fun n => (n,m)
  (indexed.insertionSort fun first second => first.1 ≤ second.1).map Prod.snd++
    members.filter fun m => (arrayIndex m.1).isNone

/-- Object of assigned members; assigning the prototype adds none. -/
def assigned (members : List (JsString × Value)) : Value :=
  .object (propertyOrder (members.filter fun m => m.1 ≠ ofString "__proto__"))

mutual

/-- Value of a parsed text. -/
def ofJson : Json → Value
  | .null => .null
  | .bool b => .bool b
  | .number literal => .number (.ofLiteral literal)
  | .string text => .string text
  | .array items => .array (ofJsonItems items)
  | .object members => .object (propertyOrder (ofJsonMembers members))

/-- Items of a parsed array. -/
def ofJsonItems : List Json → List Value
  | [] => []
  | item::rest => ofJson item::ofJsonItems rest

/-- Members of a parsed object. -/
def ofJsonMembers : List (JsString × Json) → List (JsString × Value)
  | [] => []
  | (name,value)::rest => (name,ofJson value)::ofJsonMembers rest

end

/-- Parse the bytes of a JSON text. -/
def fromJsonBytes (bytes : Bytes) : Except StoreError Value :=
  match Json.parse (decodeUtf8 bytes) with
  | some value => .ok (ofJson value)
  | none => .error .syntaxError

/-- Literal of a byte. -/
def byteLiteral (b : UInt8) : Json := .number (natText b.toNat)

mutual

/-- Tree of the text of a value without a replacer; none when it has no text. -/
def toJson : Value → Except StoreError (Option Json)
  | .undefined => .ok none
  | .null => .ok (some .null)
  | .bool b => .ok (some (.bool b))
  | .number x => .ok (some (if x.isFinite then .number x.text else .null))
  | .bigint _ => .error (.typeError "Do not know how to serialize a BigInt")
  | .string text => .ok (some (.string text))
  | .bytes data => .ok (some (.object [(ofString "type",.string (ofString "Buffer")),
      (ofString "data",.array (data.map byteLiteral))]))
  | .date iso => .ok (some (.string iso))
  | .array items => do
    let written ← toJsonItems items
    return some (.array written)
  | .object members => do
    let written ← toJsonMembers members
    return some (.object written)
  | .message _ json => do
    let written ← toJsonMembers json
    return some (.object written)
  | .unsupported _ => .ok none

/-- Items of a written array. -/
def toJsonItems : List Value → Except StoreError (List Json)
  | [] => .ok []
  | item::rest => do
    let first ← toJson item
    let others ← toJsonItems rest
    return first.getD .null::others

/-- Members of a written object. -/
def toJsonMembers : List (JsString × Value) → Except StoreError (List (JsString × Json))
  | [] => .ok []
  | (name,value)::rest => do
    let first ← toJson value
    let others ← toJsonMembers rest
    match first with
    | some written => return (name,written)::others
    | none => return others

end

/-- Bytes of the JSON text of a value. -/
def toJsonBytes (value : Value) : Except StoreError Bytes := do
  match ← toJson value with
  | some tree => return encodeUtf8 tree.stringify
  | none => return []

/-- Property of a value; that of nothing throws. -/
def valueMember (value : Value) (name : String) : Except StoreError Value :=
  match value with
  | .undefined => .error (.typeError ("Cannot read properties of undefined (reading '"++name++"')"))
  | .null => .error (.typeError ("Cannot read properties of null (reading '"++name++"')"))
  | .object members => .ok ((property name members).getD .undefined)
  | .message members _ => .ok ((property name members).getD .undefined)
  | _ => .ok .undefined

/-- A value, or a default in place of an absent one. -/
def orElse (value fallback : Value) : Value := if value.isNullish then fallback else value

/-- Entries of an object with its own names. -/
def objectEntries : Value → List (JsString × Value)
  | .object members => members
  | .message members _ => members
  | .array items => items.zipIdx.map fun item => (natText item.2,item.1)
  | .bytes data => data.zipIdx.map fun item => (natText item.2,.number (.ofRatio false item.1.toNat 1))
  | .string text => text.zipIdx.map fun item => (natText item.2,.string [item.1])
  | _ => []

/-- Elements of an array or of what is like one. -/
def arrayFrom : Value → Except StoreError (List Value)
  | .undefined => .error (.typeError "undefined is not iterable")
  | .null => .error (.typeError "null is not iterable")
  | .bytes data => .ok (data.map fun b => .number (.ofRatio false b.toNat 1))
  | .array items => .ok items
  | .string text => .ok ((codePoints text).map fun code => .string (ofCodePoint code))
  | .object members =>
    match property "length" members with
    | some (.number x) =>
      if x.isFinite ∧ ¬x.isNegative then
        .ok ((List.range (x.ratio.1/x.ratio.2)).map fun i =>
          (InsertionMap.find members (natText i)).getD .undefined)
      else .ok []
    | _ => .ok []
  | _ => .ok []

/-- Bytes of an array of numbers. -/
def requireByteArray (value : Value) (label : String) : Except StoreError Bytes :=
  match value with
  | .array items =>
    match items.mapM fun item => match item with
      | .number x => x.toByte
      | _ => none with
    | some data => .ok data
    | none => .error (.typeError (label++" must be an array of bytes"))
  | _ => .error (.typeError (label++" must be an array of bytes"))

/-- A byte array. -/
def requireBytes (value : Value) (label : String) : Except StoreError Bytes :=
  match value.toBytes with
  | some data => .ok data
  | none => .error (.typeError (label++" must be a Uint8Array"))

namespace SyncVersion

/-- Project the MAC of an index. -/
def projectMac (entry : JsString × Value) : Except StoreError (JsString × Value) := do
  let mac ← requireByteArray entry.2 ("sync-version "++shown entry.1)
  return (entry.1,.object [(ofString "valueMac",.bytes mac)])

/-- Project a sync state. -/
def toLegacy (value : Bytes) : Except StoreError (Option Value) := do
  let native ← fromJsonBytes value
  let map ← valueMember native "index_value_map"
  let indexValueMap ← (objectEntries (orElse map (.object []))).mapM projectMac
  let version ← valueMember native "version"
  let hash ← valueMember native "hash"
  let hash ← requireByteArray hash "sync-version hash"
  return some (.object [(ofString "version",orElse version (.number .zero)),
    (ofString "hash",.bytes hash),(ofString "indexValueMap",assigned indexValueMap)])

-- The order of the host's locale, which sorts the indexes.
variable (localeCompare : JsString → JsString → Bool)

/-- Convert the MAC of an index. -/
def convertMac (entry : JsString × Value) : Except StoreError (JsString × Value) := do
  let mac ← valueMember entry.2 "valueMac"
  let numbers ← arrayFrom mac
  return (entry.1,.array numbers)

/-- Convert a legacy sync state. -/
def fromLegacy (value : Value) : Except StoreError (Option Bytes) :=
  match value.toBytes with
  | some bytes => .ok (some bytes)
  | none => do
    let map ← valueMember value "indexValueMap"
    let sorted := (objectEntries (orElse map (.object []))).insertionSort
      fun first second => localeCompare first.1 second.1 = true
    let indexValueMap ← sorted.mapM convertMac
    let version ← valueMember value "version"
    let hash ← valueMember value "hash"
    let hash ← if hash.isTruthy then arrayFrom hash else .ok (List.replicate 128 (.number .zero))
    let bytes ← toJsonBytes (.object [(ofString "version",orElse version (.number .zero)),
      (ofString "hash",.array hash),(ofString "index_value_map",assigned indexValueMap)])
    return some bytes

end SyncVersion

namespace TcToken

/-- Project a token row. -/
def toLegacy (value : Bytes) : Except StoreError (Option Value) := do
  let native ← decodeTokenRow value
  let sender := match native.sender_timestamp with
    | some timestamp => [(ofString "senderTimestamp",Value.string (intText timestamp))]
    | none => []
  return some (.object ((ofString "token",.bytes (native.token.map Nat.toUInt8))::
    (ofString "timestamp",.string (intText native.token_timestamp))::sender))

/-- Timestamp of a legacy token. -/
def timestamp (value : Value) : Except StoreError ℤ :=
  match value with
  | .string text => signedTimestamp text
  | .number x => signedTimestamp x.text
  | .bigint n => signedTimestamp (intText n)
  | _ => .error (.typeError "timestamp must be a signed i64 decimal string")

/-- Convert a legacy token. -/
def fromLegacy (value : Value) : Except StoreError (Option Bytes) := do
  let token ← valueMember value "token"
  let data ← requireBytes token "TC token"
  let received ← valueMember value "timestamp"
  let received ← timestamp (orElse received (.string (ofString "0")))
  let sent ← valueMember value "senderTimestamp"
  let sent ← if sent.isNullish then .ok none else (timestamp sent).map some
  return some (encodeTokenRow ⟨data.map UInt8.toNat,received,sent⟩)

end TcToken

/-- The codecs, with those of the other stores as given. -/
def createLegacyCodecs (localeCompare : JsString → JsString → Bool) (others : Codecs) : Codecs where
  legacyKey store key :=
    match store with
    | .syncVersion => .ok key
    | .tcToken => .ok key
    | store => others.legacyKey store key
  fromLegacy store key value :=
    match store with
    | .syncVersion => SyncVersion.fromLegacy localeCompare value
    | .tcToken => TcToken.fromLegacy value
    | store => others.fromLegacy store key value
  toLegacy store key value :=
    match store with
    | .syncVersion => SyncVersion.toLegacy value
    | .tcToken => TcToken.toLegacy value
    | store => others.toLegacy store key value

end Baileyrs.LegacyProjection
