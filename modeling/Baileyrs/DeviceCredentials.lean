import Baileyrs.ByteNumbers
import Baileyrs.RecordCodecs
import Baileyrs.RuntimeBase64
import Baileyrs.SignalJids

/-!
# Device records and credentials

The credentials of a legacy authentication state stand for the device record of the
engine. The record is written from the credentials, and a record of the engine is
checked as a whole before any of it is assigned to them. The adapter prepares every
record of a batch before it applies the first, and persists what it applied.
-/

namespace Baileyrs.DeviceCredentials

open JsString AtomicStore LegacyValues LegacyProjection LegacyMirror RuntimeBytes SignalRouting

section Credentials

/-- A key pair. -/
structure KeyPair where
  /-- Private half. -/
  privateKey : Bytes
  /-- Public half. -/
  publicKey : Bytes

/-- A key pair with a signature. -/
structure SignedKeyPair where
  /-- The keys. -/
  keyPair : KeyPair
  /-- Their id. -/
  keyId : Value
  /-- Signature of the public key. -/
  signature : Bytes

/-- The own contact. -/
structure Me where
  /-- JID by phone number. -/
  id : JsString
  /-- JID by LID. -/
  lid : Option JsString
  /-- Name. -/
  name : Option JsString

/-- Credentials. A number or a text that comes from a record is a value, and an absent one
is undefined. -/
structure Creds (Account : Type) where
  /-- The own contact, once it is known. -/
  me : Option Me
  /-- The device was paired. -/
  registered : Bool
  /-- Registration id. -/
  registrationId : Value
  /-- Keys of the transport. -/
  noiseKey : Option KeyPair
  /-- Identity keys. -/
  signedIdentityKey : Option KeyPair
  /-- Signed pre-key. -/
  signedPreKey : Option SignedKeyPair
  /-- Secret of the pairing, in base64; empty for none. -/
  advSecretKey : JsString
  /-- Id of the next pre-key. -/
  nextPreKeyId : Value
  /-- Id of the first pre-key that is not uploaded. -/
  firstUnuploadedPreKeyId : Value
  /-- Hash of the properties that were received last. -/
  lastPropHash : Value
  /-- Platform of the phone. -/
  platform : Option JsString
  /-- Where the server routes the connection. -/
  routingInfo : Option Bytes
  /-- Signed identity of the device. -/
  account : Option Account

/-- What the host and the generated codec make of values that the records do not hold as texts. -/
structure DeviceHost (Account : Type) where
  /-- Text of an array or an object in a template. -/
  textOf : Value → Except StoreError JsString
  /-- Bytes of a signed identity. -/
  encodeAccount : Account → Bytes
  /-- Signed identity of its bytes. -/
  decodeAccount : Bytes → Except StoreError Account

end Credentials

section Jids

variable {Account : Type} (host : DeviceHost Account)

/-- Text of a value in a template. -/
def templateText (value : Value) : Except StoreError JsString :=
  match value with
  | .undefined => .ok (ofString "undefined")
  | .null => .ok (ofString "null")
  | .bool b => .ok (ofString (if b then "true" else "false"))
  | .number x => .ok x.text
  | .bigint n => .ok (intText n)
  | .string text => .ok text
  | value => host.textOf value

/-- Write a JID; an empty user and a device that is zero or absent are left out. -/
def jidEncode (user server device : Value) : Except StoreError JsString := do
  let userText ← if user.isTruthy then templateText host user else .ok []
  let deviceText ← if device.isTruthy then (templateText host device).map (unit ':'::·) else .ok []
  let serverText ← templateText host server
  return userText++(deviceText++unit '@'::serverText)

/-- Domains whose JIDs name no agent. -/
def AD_DOMAINS : List JsString := ["c.us","s.whatsapp.net","lid","hosted","hosted.lid"].map ofString

/-- Text of a JID of a record; none without a user and a server. -/
def nativeJidToString (value : Value) : Except StoreError (Option JsString) :=
  if (optionalMember value "user").isTruthy = false ∨ (optionalMember value "server").isTruthy = false then .ok none
  else (jidEncode host (optionalMember value "user") (optionalMember value "server")
    (orElse (optionalMember value "device") (.number .zero))).map some

/-- JID of a record for a text; `null` for none. -/
def legacyJidToNative (value : Option JsString) : Value :=
  match value.bind jidDecode with
  | none => .null
  | some decoded => .object [(ofString "user",.string decoded.user),(ofString "server",.string decoded.server),
      (ofString "device",.number (decoded.device.getD .zero)),
      (ofString "agent",.number (if decoded.server ∈ AD_DOMAINS then .zero else decoded.domainType)),
      (ofString "integrator",.number .zero)]

end Jids

section Records

/-- The fields of a device record that are read. -/
structure NativeDevice where
  /-- Own JID by phone number. -/
  pn : Value
  /-- Own JID by LID. -/
  lid : Value
  /-- Registration id. -/
  registration_id : Value
  /-- Keys of the transport. -/
  noise_key : Value
  /-- Identity keys. -/
  identity_key : Value
  /-- Keys of the signed pre-key. -/
  signed_pre_key : Value
  /-- Id of the signed pre-key. -/
  signed_pre_key_id : Value
  /-- Signature of the signed pre-key. -/
  signed_pre_key_signature : Value
  /-- Secret of the pairing. -/
  adv_secret_key : Value
  /-- Own name. -/
  push_name : Value
  /-- Platform of the phone. -/
  platform : Value
  /-- Where the server routes the connection. -/
  edge_routing_info : Value
  /-- Hash of the properties. -/
  props_hash : Value
  /-- Id of the next pre-key. -/
  next_pre_key_id : Value

/-- The version that a record is written with. -/
def WA_DEFAULT_VERSION : ℕ × ℕ × ℕ := (2,3000,1035194821)

/-- Number of an unsigned integer. -/
def counter (n : ℕ) : Value := .number (.ofRatio false n 1)

/-- A record as it is written. -/
def NativeDevice.record (device : NativeDevice) : Value :=
  .object [(ofString "pn",device.pn),(ofString "lid",device.lid),(ofString "registration_id",device.registration_id),
    (ofString "noise_key",device.noise_key),(ofString "identity_key",device.identity_key),
    (ofString "signed_pre_key",device.signed_pre_key),(ofString "signed_pre_key_id",device.signed_pre_key_id),
    (ofString "signed_pre_key_signature",device.signed_pre_key_signature),
    (ofString "adv_secret_key",device.adv_secret_key),(ofString "account",.null),
    (ofString "push_name",device.push_name),(ofString "app_version_primary",counter WA_DEFAULT_VERSION.1),
    (ofString "app_version_secondary",counter WA_DEFAULT_VERSION.2.1),
    (ofString "app_version_tertiary",counter WA_DEFAULT_VERSION.2.2),
    (ofString "app_version_last_fetched_ms",.number .zero),(ofString "edge_routing_info",device.edge_routing_info),
    (ofString "props_hash",device.props_hash),(ofString "next_pre_key_id",device.next_pre_key_id)]

/-- The fields of a parsed record; nothing has none. -/
def NativeDevice.ofRecord (native : Value) : Except StoreError NativeDevice := do
  let pn ← valueMember native "pn"
  return ⟨pn,optionalMember native "lid",optionalMember native "registration_id",optionalMember native "noise_key",
    optionalMember native "identity_key",optionalMember native "signed_pre_key",
    optionalMember native "signed_pre_key_id",optionalMember native "signed_pre_key_signature",
    optionalMember native "adv_secret_key",optionalMember native "push_name",optionalMember native "platform",
    optionalMember native "edge_routing_info",optionalMember native "props_hash",
    optionalMember native "next_pre_key_id"⟩

/-- No byte other than zero. -/
def isAllZero (value : Option Bytes) : Bool :=
  match value with
  | none => true
  | some data => data.all (· == 0)

/-- A number of zero bytes. -/
def zeroBytes (n : ℕ) : List Value := byteNumbers (List.replicate n 0)

/-- Numbers of a key pair, the private half first. -/
def keyPairToNumbers (pair : Option KeyPair) : Except StoreError (List Value) :=
  match pair with
  | none => .ok (zeroBytes 64)
  | some pair =>
    if pair.privateKey.length ≠ 32 ∨ pair.publicKey.length ≠ 32 then
      .error (.typeError "legacy key pair must contain two 32-byte keys")
    else .ok (byteNumbers (pair.privateKey++pair.publicKey))

/-- Key pair of numbers; none of zeros. -/
def numbersToKeyPair (value : Value) (label : String) : Except StoreError (Option KeyPair) :=
  match value with
  | .undefined => .ok none
  | value => do
    let bytes ← requireByteArray value label
    if bytes.length ≠ 64 then throw (.typeError (label++" must contain 64 bytes"))
    else if bytes.all (· == 0) = true then return none
    else return some ⟨bytes.take 32,bytes.drop 32⟩

variable {Account : Type}

/-- The device record of credentials; none before they are paired. -/
def deviceFromCreds (creds : Creds Account) : Except StoreError (Option Bytes) :=
  match creds.me with
  | none => .ok none
  | some me =>
    if me.id = [] ∨ isAllZero (creds.noiseKey.map (·.privateKey)) = true ∨
        isAllZero (creds.signedIdentityKey.map (·.privateKey)) = true then .ok none
    else do
      let noise_key ← keyPairToNumbers creds.noiseKey
      let identity_key ← keyPairToNumbers creds.signedIdentityKey
      let signed_pre_key ← keyPairToNumbers (creds.signedPreKey.map (·.keyPair))
      let signature := match creds.signedPreKey with
        | some signed => byteNumbers signed.signature
        | none => zeroBytes 64
      let adv_secret_key ← if creds.advSecretKey = [] then .ok (zeroBytes 32)
        else (base64Decode creds.advSecretKey).map byteNumbers
      let bytes ← toJsonBytes (NativeDevice.record ⟨legacyJidToNative (some me.id),legacyJidToNative me.lid,
        orElse creds.registrationId (.number .zero),.array noise_key,.array identity_key,.array signed_pre_key,
        orElse ((creds.signedPreKey.map (·.keyId)).getD .undefined) (.number .zero),.array signature,
        .array adv_secret_key,.string (me.name.getD []),.undefined,
        (creds.routingInfo.map fun data => .array (byteNumbers data)).getD .null,
        orElse creds.lastPropHash .null,orElse creds.nextPreKeyId (.number .zero)⟩)
      return some bytes

/-- The bytes of the signed identity. -/
def accountBytes (host : DeviceHost Account) (creds : Creds Account) : Option Bytes :=
  creds.account.map host.encodeAccount

/-- A checked device record. -/
structure PreparedDevice where
  /-- Its fields. -/
  native : NativeDevice
  /-- Own JID by phone number. -/
  pn : Option JsString
  /-- Own JID by LID. -/
  lid : Option JsString
  /-- Registration id. -/
  registrationId : Option JsNumber
  /-- Id of the next pre-key. -/
  nextPreKeyId : Option JsNumber
  /-- Keys of the transport. -/
  noiseKey : Option KeyPair
  /-- Identity keys. -/
  identityKey : Option KeyPair
  /-- Keys of the signed pre-key. -/
  signedPreKey : Option KeyPair
  /-- Signature of the signed pre-key. -/
  signature : Option Bytes
  /-- Secret of the pairing. -/
  advSecret : Option Bytes
  /-- Routing information, `none` of which is given as `null`. -/
  routingInfo : Option (Option Bytes)

/-- A counter, unless it is absent. -/
def optionalCounter (value : Value) (label : String) : Except StoreError (Option JsNumber) :=
  match value with
  | .undefined => .ok none
  | value => (requireSafeUnsignedInteger value label).map some

/-- A number of bytes, unless they are absent. -/
def optionalBytes (value : Value) (length : ℕ) (label short : String) : Except StoreError (Option Bytes) :=
  match value with
  | .undefined => .ok none
  | value => do
    let bytes ← requireByteArray value label
    if bytes.length ≠ length then throw (.typeError short)
    else return some bytes

/-- Routing information, unless it is absent. -/
def optionalRouting (value : Value) : Except StoreError (Option (Option Bytes)) :=
  match value with
  | .undefined => .ok none
  | .null => .ok (some none)
  | value => (requireByteArray value "routing info").map fun bytes => some (some bytes)

/-- Check a device record as a whole. -/
def prepareNativeDevice (host : DeviceHost Account) (payload : Bytes) : Except StoreError PreparedDevice := do
  let parsed ← fromJsonBytes payload
  let native ← NativeDevice.ofRecord parsed
  let pn ← nativeJidToString host native.pn
  let lid ← nativeJidToString host native.lid
  let registrationId ← optionalCounter native.registration_id "device registration id"
  let nextPreKeyId ← optionalCounter native.next_pre_key_id "next pre-key id"
  let noiseKey ← numbersToKeyPair native.noise_key "noise key pair"
  let identityKey ← numbersToKeyPair native.identity_key "identity key pair"
  let signedPreKey ← numbersToKeyPair native.signed_pre_key "signed pre-key pair"
  let signature ← optionalBytes native.signed_pre_key_signature 64 "signed pre-key signature"
    "signed pre-key signature must contain 64 bytes"
  let advSecret ← optionalBytes native.adv_secret_key 32 "adv secret key" "adv secret key must contain 32 bytes"
  let routingInfo ← optionalRouting native.edge_routing_info
  return ⟨native,pn,lid,registrationId,nextPreKeyId,noiseKey,identityKey,signedPreKey,signature,advSecret,routingInfo⟩

/-- The own contact with what a record says of it. -/
def PreparedDevice.me (device : PreparedDevice) (me : Option Me) : Option Me :=
  let me := match device.pn with
    | some pn => some ⟨pn,me.bind (·.lid),me.bind (·.name)⟩
    | none => me
  let me := match device.lid with
    | some lid => me.map fun me => { me with lid := some lid }
    | none => me
  match device.native.push_name with
  | .string name => me.map fun me => { me with name := some name }
  | _ => me

/-- The signed pre-key of a record, if it is signed. -/
def PreparedDevice.signed (device : PreparedDevice) : Option SignedKeyPair :=
  match device.signedPreKey,device.signature with
  | some keyPair,some signature =>
    if signature.any (· != 0) then
      some ⟨keyPair,orElse device.native.signed_pre_key_id (.number .zero),signature⟩
    else none
  | _,_ => none

/-- Assign a checked record to the credentials. -/
def PreparedDevice.apply (device : PreparedDevice) (creds : Creds Account) : Creds Account where
  me := device.me creds.me
  registered := if device.pn.isSome then true else creds.registered
  registrationId := (device.registrationId.map .number).getD creds.registrationId
  noiseKey := device.noiseKey.or creds.noiseKey
  signedIdentityKey := device.identityKey.or creds.signedIdentityKey
  signedPreKey := device.signed.or creds.signedPreKey
  advSecretKey :=
    match device.advSecret with
    | some secret => if secret.any (· != 0) then base64Encode secret else creds.advSecretKey
    | none => creds.advSecretKey
  nextPreKeyId := (device.nextPreKeyId.map .number).getD creds.nextPreKeyId
  firstUnuploadedPreKeyId := (device.nextPreKeyId.map .number).getD creds.firstUnuploadedPreKeyId
  lastPropHash :=
    match device.native.props_hash with
    | .undefined => creds.lastPropHash
    | .null => .undefined
    | value => value
  platform :=
    match device.native.platform with
    | .string platform => some platform
    | _ => creds.platform
  routingInfo := device.routingInfo.getD creds.routingInfo
  account := creds.account

end Records

section Adapter

variable {Account : Type} (host : DeviceHost Account) (digest : Digest)

/-- Keys of the device store. -/
inductive DeviceRecordKey where
  | device
  | account
  deriving DecidableEq

/-- The record a key names. -/
def parseDeviceRecordKey (value : JsString) : Except StoreError DeviceRecordKey :=
  if value = ofString "device" then .ok .device
  else if value = ofString "account" then .ok .account
  else .error (.rangeError ("unsupported device record key: "++shown value))

/-- Read a record off the credentials. -/
def readProjection (key : DeviceRecordKey) (creds : Creds Account) : Except StoreError (Option Bytes) :=
  match key with
  | .device => deviceFromCreds creds
  | .account => .ok (accountBytes host creds)

/-- Check a record; what is left is to apply it. -/
def prepareProjection (key : DeviceRecordKey) (payload : Bytes) : Except StoreError (Creds Account → Creds Account) :=
  match key with
  | .device => (prepareNativeDevice host payload).map PreparedDevice.apply
  | .account => (host.decodeAccount payload).map fun account creds => { creds with account := some account }

/-- A record of a batch, ready to be applied. -/
structure PreparedRecord (Account : Type) where
  /-- Key as it was given. -/
  rawKey : JsString
  /-- The record it names. -/
  key : DeviceRecordKey
  /-- Its bytes. -/
  value : Bytes
  /-- What it assigns. -/
  apply : Creds Account → Creds Account

/-- Check an entry of a batch. -/
def prepareRecord (entry : JsString × Bytes) : Except StoreError (PreparedRecord Account) := do
  let key ← parseDeviceRecordKey entry.1
  let apply ← prepareProjection host key entry.2
  return ⟨entry.1,key,entry.2,apply⟩

/-- Value of a projection for its fingerprint. -/
def projectionValue (projection : Option Bytes) : Value := (projection.map .bytes).getD .null

/-- Mirror row of an applied record. -/
def mirrorRow (creds : Creds Account) (record : PreparedRecord Account) : Except StoreError (JsString × Value) := do
  let projection ← readProjection host record.key creds
  return (record.rawKey,.bytes (encodeNativeEnvelope digest record.value (projectionValue projection)))

/-- Credentials with what was persisted of them. -/
structure DeviceStore (Account : Type) where
  /-- The credentials. -/
  creds : Creds Account
  /-- Credentials that were handed on to be saved, in order. -/
  saved : List (Creds Account)
  /-- Mirror rows that were handed on to be persisted, in order. -/
  persisted : List Bucket

/-- Write a batch of records. The two writes of the backend may each fail. -/
def writeDevice (saveCreds persist : Except StoreError Unit) (entries : List (JsString × Bytes))
    (store : DeviceStore Account) : Except StoreError Unit × DeviceStore Account :=
  match entries.mapM (prepareRecord host) with
  | .error error => (.error error,store)
  | .ok prepared =>
    let creds := prepared.foldl (fun creds record => record.apply creds) store.creds
    match prepared.mapM (mirrorRow host digest creds) with
    | .error error => (.error error,{ store with creds })
    | .ok bucket =>
      let written : DeviceStore Account := ⟨creds,store.saved++[creds],store.persisted++[bucket]⟩
      match saveCreds,persist with
      | .ok _,.ok _ => (.ok (),written)
      | _,_ => (.error (.error "device persistence failed"),written)

/-- Write a batch of distinct keys to the device store. -/
def writeMany (saveCreds persist : Except StoreError Unit) (entries : List (JsString × Bytes))
    (store : DeviceStore Account) : Except StoreError Unit × DeviceStore Account :=
  if entries = [] then (.ok (),store)
  else
    match uniqueKeys (entries.map Prod.fst) "device setMany" with
    | .error error => (.error error,store)
    | .ok _ => writeDevice host digest saveCreds persist entries store

end Adapter

end Baileyrs.DeviceCredentials
