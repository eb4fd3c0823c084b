import Baileyrs.LegacyCodecs
import Baileyrs.SignalRouting

/-!
# Codecs of keys, device lists and mappings

Each codec converts between the bytes the engine keeps and the value a legacy key
store holds. Records in a binary format go through component codecs of the bridge;
all others are JSON texts. A value of the wrong shape is refused.
-/

namespace Baileyrs.LegacyProjection

open JsString AtomicStore LegacyValues SignalRouting

/-- What the host makes of values that the codecs convert. -/
structure CodecHost where
  /-- Element a value becomes in a byte array; none when the conversion throws. -/
  byteOf : Value → Option UInt8
  /-- Number of a value. -/
  numberOf : Value → Except StoreError JsNumber
  /-- Byte array made of a value that is none. -/
  bytesFrom : Value → Except StoreError Bytes
  /-- The order of the host's locale. -/
  localeCompare : JsString → JsString → Bool

/-- Codecs of the bridge for pre-keys and for parts of sync keys. -/
structure KeyComponents where
  /-- Bytes of a pre-key record. -/
  encodePreKey : ℕ → Bytes → Bytes → Bytes
  /-- Public and private key of a pre-key record. -/
  decodePreKey : Bytes → Except StoreError (Option Bytes × Option Bytes)
  /-- Bytes of a fingerprint. -/
  encodeFingerprint : Value → Except StoreError Bytes
  /-- Fingerprint of its bytes. -/
  decodeFingerprint : Bytes → Except StoreError Value
  /-- Sync-key message of key data, a fingerprint and a timestamp. -/
  syncKeyData : Bytes → Value → JsNumber → Except StoreError Value

/-- Property of a value that may be absent. -/
def optionalMember (value : Value) (name : String) : Value :=
  match valueMember value name with
  | .ok found => found
  | .error _ => .undefined

/-- A Curve public key with its prefix. -/
def serializeSignalPublicKey (value : Value) (label : String) : Except StoreError Bytes := do
  let bytes ← requireBytes value label
  if bytes.length = 33 ∧ bytes.head? = some 5 then return bytes
  else if bytes.length ≠ 32 then
    throw (.typeError (label++" must be a 32-byte raw or 33-byte serialized public key"))
  else return 5::bytes

/-- A number is an unsigned integer that is safe. -/
def isSafeUnsigned (x : JsNumber) : Bool :=
  x = .negativeZero ||
    let n := x.ratio.1/x.ratio.2
    x.isFinite && (n < 2^53 && JsNumber.ofRatio false n 1 = x)

/-- A safe unsigned integer. -/
def requireSafeUnsignedInteger (value : Value) (label : String) : Except StoreError JsNumber :=
  match value with
  | .number x =>
    if isSafeUnsigned x then .ok x else .error (.typeError (label++" must be a safe unsigned integer"))
  | _ => .error (.typeError (label++" must be a safe unsigned integer"))

namespace PreKey

variable (components : KeyComponents)

/-- Convert a legacy pre-key. -/
def fromLegacy (key : JsString) (value : Value) : Except StoreError (Option Bytes) :=
  match value.toBytes with
  | some bytes => .ok (some bytes)
  | none => do
    let publicKey ← requireBytes (optionalMember value "public") "legacy pre-key public key"
    let privateKey ← requireBytes (optionalMember value "private") "legacy pre-key private key"
    let id ← parseUnsignedDecimal key "pre-key id"
    return some (components.encodePreKey id publicKey privateKey)

/-- Project a pre-key record. -/
def toLegacy (value : Bytes) : Except StoreError (Option Value) := do
  match ← components.decodePreKey value with
  | (some publicKey,some privateKey) =>
    return some (.object [(ofString "public",.bytes publicKey),(ofString "private",.bytes privateKey)])
  | _ => throw (.typeError "native pre-key record is missing key material")

end PreKey

namespace SyncKey

variable (host : CodecHost) (components : KeyComponents)

/-- Convert a legacy sync key. -/
def fromLegacy (value : Value) : Except StoreError (Option Bytes) :=
  match value.toBytes with
  | some bytes => .ok (some bytes)
  | none => do
    let fingerprint ← valueMember value "fingerprint"
    let fingerprint ← if fingerprint.isTruthy then components.encodeFingerprint fingerprint else .ok []
    let keyData ← valueMember value "keyData"
    let keyData ← if keyData.isTruthy then arrayFrom keyData else .ok []
    let timestamp ← valueMember value "timestamp"
    let timestamp ← host.numberOf (orElse timestamp (.number .zero))
    let bytes ← toJsonBytes (.object [(ofString "key_data",.array keyData),
      (ofString "fingerprint",.array (fingerprint.map fun b => .number (.ofRatio false b.toNat 1))),
      (ofString "timestamp",.number timestamp)])
    return some bytes

/-- Project a sync-key record. -/
def toLegacy (value : Bytes) : Except StoreError (Option Value) := do
  let native ← fromJsonBytes value
  let keyData ← valueMember native "key_data"
  let keyData ← requireByteArray keyData "sync-key key_data"
  let fingerprint ← valueMember native "fingerprint"
  let fingerprint ← requireByteArray fingerprint "sync-key fingerprint"
  let fingerprint ← if fingerprint.length > 0 then components.decodeFingerprint fingerprint
    else .ok .undefined
  let timestamp ← valueMember native "timestamp"
  let timestamp ← host.numberOf (orElse timestamp (.number .zero))
  let message ← components.syncKeyData keyData fingerprint timestamp
  return some message

end SyncKey

namespace DeviceList

/-- Texts of an array of them. -/
def textsOf : Value → Option (List JsString)
  | .array items => items.mapM fun item => match item with
    | .string text => some text
    | _ => none
  | _ => none

/-- A device as it is written. -/
def deviceEntry (device : JsString) : Except StoreError Value := do
  let id ← parseUnsignedDecimal device "device id"
  return .object [(ofString "device_id",.number (.ofRatio false id 1))]

/-- Convert a legacy device list. -/
def fromLegacy (key : JsString) (value : Value) : Except StoreError (Option Bytes) :=
  match textsOf value with
  | none => .error (.typeError "legacy device list must be an array of decimal strings")
  | some texts => do
    let devices ← texts.mapM deviceEntry
    let bytes ← toJsonBytes (.object [(ofString "user",.string key),(ofString "devices",.array devices),
      (ofString "timestamp",.number .zero)])
    return some bytes

/-- Text of a device. -/
def deviceText (device : Value) : Except StoreError Value := do
  let id ← valueMember device "device_id"
  let id ← requireSafeUnsignedInteger id "native device id"
  return .string id.text

/-- Project a device list. -/
def toLegacy (value : Bytes) : Except StoreError (Option Value) := do
  let native ← fromJsonBytes value
  let devices ← valueMember native "devices"
  match orElse devices (.array []) with
  | .array items => do
    let texts ← items.mapM deviceText
    return some (.array texts)
  | _ => throw (.typeError "(native.devices ?? []).map is not a function")

end DeviceList

namespace Identity

/-- Convert a legacy identity key. -/
def fromLegacy (value : Value) : Except StoreError (Option Bytes) := do
  let serialized ← serializeSignalPublicKey value "legacy identity key"
  return some (serialized.drop 1)

/-- Project an identity key. -/
def toLegacy (value : Bytes) : Except StoreError (Option Value) := do
  let serialized ← serializeSignalPublicKey (.bytes value) "native identity key"
  return some (.bytes serialized)

end Identity

namespace LidMapping

/-- Text of a legacy mapping. -/
def mappingText : Value → Except StoreError JsString
  | .string text => .ok text
  | value => do
    let bytes ← requireBytes value "legacy LID mapping"
    return readUtf8 none bytes

/-- Convert a legacy mapping. -/
def fromLegacy (key : JsString) (value : Value) : Except StoreError (Option Bytes) := do
  let mapping ← mappingText value
  if mapping.length = 0 then return none
  else
    let (direction,user) ← parseLidMappingKey key
    match direction with
    | .pn => return some (encodeUtf8 mapping)
    | .lid => do
      let bytes ← toJsonBytes (.object [(ofString "lid",.string user),(ofString "phone_number",.string mapping),
        (ofString "created_at",.number .zero),(ofString "updated_at",.number .zero),
        (ofString "learning_source",.string (ofString "legacy-store-adapter"))])
      return some bytes

/-- Project a mapping. -/
def toLegacy (key : JsString) (value : Bytes) : Except StoreError (Option Value) := do
  let (direction,_) ← parseLidMappingKey key
  match direction with
  | .pn => return some (.string (readUtf8 none value))
  | .lid => do
    let native ← fromJsonBytes value
    match ← valueMember native "phone_number" with
    | .string text => return some (.string text)
    | _ => throw (.typeError "native LID mapping has no phone number")

end LidMapping

end Baileyrs.LegacyProjection
