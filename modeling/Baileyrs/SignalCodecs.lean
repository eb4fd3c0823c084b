import Baileyrs.RecordCodecs

/-!
# Codecs of sender keys and sessions

The bridge decodes its records into components and encodes components; these
codecs convert between components and the legacy records. A sender-key record is a
JSON text of its states, oldest first, with binary data in base64. A session record is
an object whose tables are keyed by base64 texts and message indexes; a session that
no such record expresses has no projection.
-/

namespace Baileyrs.LegacyProjection

open JsString AtomicStore LegacyValues SignalRouting

/-- A message key of a sender. -/
structure SenderMessageKey where
  /-- Iteration it belongs to. -/
  iteration : ℕ
  /-- Its seed. -/
  seed : Bytes

/-- A state of a sender key. -/
structure SenderKeyState where
  /-- Id of the key. -/
  keyId : ℕ
  /-- Iteration of the chain. -/
  iteration : ℕ
  /-- Seed of the chain. -/
  seed : Bytes
  /-- Public signing key. -/
  publicKey : Bytes
  /-- Private signing key, of the sender only. -/
  privateKey : Option Bytes
  /-- Keys of skipped messages. -/
  messageKeys : List SenderMessageKey

/-- Key of a skipped message of a session. -/
structure SessionMessageKey where
  /-- Index of the message. -/
  index : ℕ
  /-- Its seed. -/
  seed : Bytes

/-- A chain of a session. -/
structure SessionChain where
  /-- Ratchet key that names the chain. -/
  ratchetKey : Bytes
  /-- Sending or receiving. -/
  role : Value
  /-- Counter of the chain key. -/
  counter : Value
  /-- The chain key, unless it was used up. -/
  key : Option Bytes
  /-- Keys of skipped messages. -/
  messageKeys : List SessionMessageKey

/-- A pre-key that a session still announces. -/
structure PendingPreKey where
  /-- Id of the pre-key. -/
  preKeyId : Value
  /-- Id of the signed pre-key. -/
  signedPreKeyId : Value
  /-- Base key. -/
  baseKey : Bytes

/-- A session as the bridge's interop takes it. -/
structure CoreSession where
  /-- Registration id of the other party. -/
  registrationId : Value
  /-- Public key of the sender's ratchet. -/
  ratchetPublic : Bytes
  /-- Private key of the sender's ratchet. -/
  ratchetPrivate : Bytes
  /-- Last ratchet key of the other party. -/
  lastRemoteEphemeralKey : Bytes
  /-- Counter of the chain before. -/
  previousCounter : Value
  /-- Root key. -/
  rootKey : Bytes
  /-- Base key. -/
  baseKey : Bytes
  /-- Whose base key it is. -/
  baseKeyRole : Value
  /-- When the session was closed. -/
  closedTimestamp : Value
  /-- When it was used last. -/
  usedAtMs : Value
  /-- When it was created. -/
  createdAtMs : Value
  /-- Identity key of the other party. -/
  remoteIdentityKey : Bytes
  /-- Its chains. -/
  chains : List SessionChain
  /-- A pre-key it still announces. -/
  pendingPreKey : Option PendingPreKey

/-- Sessions with their index keys. -/
abbrev SessionRecord := List (Bytes × CoreSession)

/-- Codecs of the bridge for sender keys and sessions. -/
structure SignalComponents where
  /-- Bytes of a sender-key record. -/
  encodeSenderKey : List SenderKeyState → Except StoreError Bytes
  /-- States of a sender-key record, the current one first. -/
  decodeSenderKey : Bytes → Except StoreError (List SenderKeyState)
  /-- Bytes of a session record, for a local identity key and registration id. -/
  importSession : SessionRecord → Bytes → Value → Except StoreError Bytes
  /-- Session record of its bytes; none when it is unrepresentable. -/
  projectSession : Bytes → Except StoreError (Option SessionRecord)

/-- Local credentials that a session record holds and a legacy one does not. -/
structure SignalDefaults where
  /-- Public key of the local identity. -/
  localIdentityPublic : Value
  /-- Local registration id. -/
  localRegistrationId : Value

/-- Number of an unsigned integer. -/
def numberValue (n : ℕ) : Value := .number (.ofRatio false n 1)

/-- An unsigned integer of 32 bits. -/
def integer (value : Value) (label : String) : Except StoreError ℕ :=
  match value with
  | .number x =>
    if x = .negativeZero then .ok 0
    else
      let n := x.ratio.1/x.ratio.2
      if x.isFinite ∧ n < 2^32 ∧ JsNumber.ofRatio false n 1 = x then .ok n
      else .error (.typeError (label++" must be an unsigned 32-bit integer"))
  | _ => .error (.typeError (label++" must be an unsigned 32-bit integer"))

/-- Binary data that is not empty. -/
def requiredBytes (value : Value) (label : String) : Except StoreError Bytes :=
  match value with
  | .bytes (b::rest) => .ok (b::rest)
  | _ => .error (.typeError (label++" must be binary data"))

namespace SenderKey

/-- Project a message key. -/
def messageKeyToLegacy (messageKey : SenderMessageKey) : Value :=
  .object [(ofString "iteration",numberValue messageKey.iteration),(ofString "seed",.bytes messageKey.seed)]

/-- Project a state. -/
def stateToLegacy (state : SenderKeyState) : Value :=
  .object [(ofString "senderKeyId",numberValue state.keyId),
    (ofString "senderChainKey",.object [(ofString "iteration",numberValue state.iteration),
      (ofString "seed",.bytes state.seed)]),
    (ofString "senderSigningKey",.object [(ofString "public",.bytes state.publicKey),
      (ofString "private",.bytes (state.privateKey.getD []))]),
    (ofString "senderMessageKeys",.array (state.messageKeys.map messageKeyToLegacy))]

variable (host : CodecHost) (components : SignalComponents)

/-- Project a sender-key record: its states, oldest first. -/
def toLegacy (value : Bytes) : Except StoreError (Option Value) := do
  let states ← components.decodeSenderKey value
  let written ← stringify host.byteOf (.array (states.reverse.map stateToLegacy))
  let text ← toJsonBytes (written.getD .undefined)
  return some (.bytes text)

/-- Convert a message key. -/
def messageKeyFromLegacy (stateIndex keyIndex : ℕ) (messageKey : Value) : Except StoreError SenderMessageKey := do
  let label := "sender-key state "++toString stateIndex++" message key "++toString keyIndex
  let iteration ← valueMember messageKey "iteration"
  let iteration ← integer iteration (label++" iteration")
  let seed ← valueMember messageKey "seed"
  let seed ← requiredBytes seed (label++" seed")
  return ⟨iteration,seed⟩

/-- Private key of a legacy state; an empty one is none. -/
def privateFromLegacy (key : Value) : Except StoreError (Option Bytes) :=
  match key with
  | .bytes data => .ok (if data.isEmpty then none else some data)
  | key =>
    if (match key with
      | .string text => !text.isEmpty
      | .array items => !items.isEmpty
      | key => (optionalMember key "length").isTruthy) then (host.bytesFrom key).map some
    else .ok none

/-- Message keys of a legacy state. -/
def messageKeysFromLegacy (stateIndex : ℕ) (keys : Value) : Except StoreError (List SenderMessageKey) :=
  match orElse keys (.array []) with
  | .array items => items.zipIdx.mapM fun item => messageKeyFromLegacy stateIndex item.2 item.1
  | _ => .error (.typeError "(state.senderMessageKeys ?? []).map is not a function")

/-- Convert a state. -/
def stateFromLegacy (stateIndex : ℕ) (state : Value) : Except StoreError SenderKeyState := do
  let label := "sender-key state "++toString stateIndex
  let keyId ← valueMember state "senderKeyId"
  let keyId ← integer keyId (label++" id")
  let chainKey := optionalMember state "senderChainKey"
  let iteration ← integer (optionalMember chainKey "iteration") (label++" iteration")
  let seed ← requiredBytes (optionalMember chainKey "seed") (label++" chain seed")
  let signingKey := optionalMember state "senderSigningKey"
  let publicKey ← requiredBytes (optionalMember signingKey "public") (label++" signing public key")
  let privateKey ← privateFromLegacy host (optionalMember signingKey "private")
  let messageKeys ← messageKeysFromLegacy stateIndex (optionalMember state "senderMessageKeys")
  return ⟨keyId,iteration,seed,publicKey,privateKey,messageKeys⟩

/-- Convert a legacy sender-key record. -/
def fromLegacy (value : Value) : Except StoreError (Option Bytes) :=
  match value.toBytes with
  | none => .error (.typeError "legacy sender-key record must be binary JSON")
  | some data =>
    match Json.parse (readUtf8 none data) with
    | none => .error .syntaxError
    | some tree => do
      match ← revive host.byteOf (ofJson tree) with
      | .array items => do
        let states ← items.zipIdx.mapM fun item => stateFromLegacy host item.2 item.1
        let bytes ← components.encodeSenderKey states.reverse
        return some bytes
      | _ => throw (.typeError "legacy sender-key record must contain an array")

end SenderKey

namespace Session

/-- A text without the padding at its end. -/
def stripPadding (text : JsString) : JsString := (text.reverse.dropWhile (· = Base64.padding)).reverse

/-- Bytes of a base64 text. -/
def fromBase64 (value : Value) (label : String) : Except StoreError Bytes :=
  match value with
  | .string text =>
    if stripPadding text = stripPadding (Base64.encode (Base64.decode text)) then .ok (Base64.decode text)
    else .error (.typeError (label++" is not valid base64"))
  | _ => .error (.typeError (label++" must be base64 text"))

/-- Base64 text of bytes. -/
def toBase64 (bytes : Bytes) : Value := .string (Base64.encode bytes)

/-- Object of assigned members; the last one of a name counts. -/
def table (members : List (JsString × Value)) : Value :=
  .object (propertyOrder (members.foldl (fun entries member => InsertionMap.put entries member.1 member.2) []))

/-- Index of a skipped message. -/
def messageKeyIndex (value : JsString) : Except StoreError ℕ :=
  if value = [] ∨ value.all Json.isDigit = false then
    .error (.typeError "legacy skipped-message index must be an unsigned integer")
  else if ofDigits value < 2^32 then .ok (ofDigits value)
  else .error (.typeError "legacy skipped-message index must fit an unsigned 32-bit integer")

/-- Convert the key of a skipped message. -/
def messageKeyFromLegacy (entry : JsString × Value) : Except StoreError SessionMessageKey := do
  let index ← messageKeyIndex entry.1
  let seed ← fromBase64 entry.2 "legacy skipped-message key"
  return ⟨index,seed⟩

/-- Convert a chain. -/
def chainFromLegacy (entry : JsString × Value) : Except StoreError SessionChain := do
  let ratchetKey ← fromBase64 (.string entry.1) "chain ratchet key"
  let role ← valueMember entry.2 "chainType"
  let chainKey ← valueMember entry.2 "chainKey"
  let counter ← valueMember chainKey "counter"
  let key ← valueMember chainKey "key"
  let key ← match key with
    | .undefined => .ok none
    | key => (fromBase64 key "legacy chain key").map some
  let messageKeys ← valueMember entry.2 "messageKeys"
  let messageKeys ← (objectEntries (orElse messageKeys (.object []))).mapM messageKeyFromLegacy
  return ⟨ratchetKey,role,counter,key,messageKeys⟩

/-- Convert a pending pre-key. -/
def pendingFromLegacy (pending : Value) : Except StoreError (Option PendingPreKey) :=
  if pending.isTruthy then do
    let preKeyId ← valueMember pending "preKeyId"
    let signedPreKeyId ← valueMember pending "signedKeyId"
    let baseKey ← valueMember pending "baseKey"
    let baseKey ← fromBase64 baseKey "pending pre-key base key"
    return some ⟨preKeyId,signedPreKeyId,baseKey⟩
  else .ok none

/-- A value that is an object. -/
def isObject : Value → Bool
  | .bytes _ => true
  | .date _ => true
  | .array _ => true
  | .object _ => true
  | .message _ _ => true
  | _ => false

/-- Text of a member of an object member. -/
def base64Member (value : Value) (name label : String) : Except StoreError Bytes := do
  let found ← valueMember value name
  fromBase64 found label

/-- Convert a session. -/
def entryToCore (entry recordRegistrationId : Value) : Except StoreError CoreSession := do
  let ratchet ← valueMember entry "currentRatchet"
  let chains ← valueMember entry "_chains"
  if isObject chains = false then throw (.typeError "legacy session is missing its chain catalog")
  else
    let registrationId ← valueMember entry "registrationId"
    let pair ← valueMember ratchet "ephemeralKeyPair"
    let ratchetPublic ← base64Member pair "pubKey" "sender ratchet public key"
    let ratchetPrivate ← base64Member pair "privKey" "sender ratchet private key"
    let lastRemoteEphemeralKey ← base64Member ratchet "lastRemoteEphemeralKey" "last remote ephemeral key"
    let previousCounter ← valueMember ratchet "previousCounter"
    let rootKey ← base64Member ratchet "rootKey" "session root key"
    let index ← valueMember entry "indexInfo"
    let baseKey ← base64Member index "baseKey" "session base key"
    let baseKeyRole ← valueMember index "baseKeyType"
    let closedTimestamp ← valueMember index "closed"
    let usedAtMs ← valueMember index "used"
    let createdAtMs ← valueMember index "created"
    let remoteIdentityKey ← base64Member index "remoteIdentityKey" "remote identity key"
    let chains ← (objectEntries chains).mapM chainFromLegacy
    let pending ← valueMember entry "pendingPreKey"
    let pendingPreKey ← pendingFromLegacy pending
    return ⟨orElse registrationId (orElse recordRegistrationId (.number .zero)),ratchetPublic,ratchetPrivate,
      lastRemoteEphemeralKey,previousCounter,rootKey,baseKey,baseKeyRole,closedTimestamp,usedAtMs,createdAtMs,
      remoteIdentityKey,chains,pendingPreKey⟩

/-- Convert an indexed session. -/
def indexedToCore (recordRegistrationId : Value) (entry : JsString × Value) :
    Except StoreError (Bytes × CoreSession) := do
  let indexKey ← fromBase64 (.string entry.1) "legacy session index key"
  let session ← entryToCore entry.2 recordRegistrationId
  return (indexKey,session)

/-- Components of a legacy session record. -/
def recordToCore (value : Value) : Except StoreError SessionRecord := do
  let sessions ← valueMember value "_sessions"
  let registrationId ← valueMember value "registrationId"
  (objectEntries sessions).mapM (indexedToCore registrationId)

/-- Project the key of a skipped message. -/
def messageKeyToLegacy (messageKey : SessionMessageKey) : JsString × Value :=
  (natText messageKey.index,toBase64 messageKey.seed)

/-- Project a chain. -/
def chainToLegacy (chain : SessionChain) : JsString × Value :=
  (Base64.encode chain.ratchetKey,.object [
    (ofString "chainKey",.object [(ofString "counter",chain.counter),
      (ofString "key",(chain.key.map toBase64).getD .undefined)]),
    (ofString "chainType",chain.role),
    (ofString "messageKeys",table (chain.messageKeys.map messageKeyToLegacy))])

/-- Project a pending pre-key; an id it does not have is left out. -/
def pendingToLegacy (pending : PendingPreKey) : Value :=
  .object ([(ofString "signedKeyId",pending.signedPreKeyId),(ofString "baseKey",toBase64 pending.baseKey)]++
    match pending.preKeyId with
    | .undefined => []
    | preKeyId => [(ofString "preKeyId",preKeyId)])

/-- Project a session. -/
def coreToEntry (session : CoreSession) : Value :=
  .object ([(ofString "registrationId",session.registrationId),
    (ofString "currentRatchet",.object [
      (ofString "ephemeralKeyPair",.object [(ofString "pubKey",toBase64 session.ratchetPublic),
        (ofString "privKey",toBase64 session.ratchetPrivate)]),
      (ofString "lastRemoteEphemeralKey",toBase64 session.lastRemoteEphemeralKey),
      (ofString "previousCounter",session.previousCounter),
      (ofString "rootKey",toBase64 session.rootKey)]),
    (ofString "indexInfo",.object [(ofString "baseKey",toBase64 session.baseKey),
      (ofString "baseKeyType",session.baseKeyRole),(ofString "closed",session.closedTimestamp),
      (ofString "used",session.usedAtMs),(ofString "created",session.createdAtMs),
      (ofString "remoteIdentityKey",toBase64 session.remoteIdentityKey)]),
    (ofString "_chains",table (session.chains.map chainToLegacy))]++
    match session.pendingPreKey with
    | some pending => [(ofString "pendingPreKey",pendingToLegacy pending)]
    | none => [])

/-- Legacy record of components. -/
def recordToLegacy (record : SessionRecord) : Value :=
  .object [(ofString "_sessions",table (record.map fun indexed =>
    (Base64.encode indexed.1,coreToEntry indexed.2))),(ofString "version",.string (ofString "v1"))]

variable (components : SignalComponents)

/-- Convert a legacy session record. -/
def fromLegacy (defaults : Option SignalDefaults) (value : Value) : Except StoreError (Option Bytes) :=
  if isObject value = false then .error (.typeError "legacy session record must be an object")
  else
    match optionalMember value "version",(optionalMember value "_sessions").isTruthy with
    | .string version,true =>
      if version = ofString "v1" then
        match defaults with
        | none => .error (.typeError "session import requires local Signal credentials")
        | some defaults => do
          let record ← recordToCore value
          let identity ← serializeSignalPublicKey defaults.localIdentityPublic "local identity key"
          let bytes ← components.importSession record identity defaults.localRegistrationId
          return some bytes
      else .error (.typeError "legacy session record has an unsupported shape or version")
    | _,_ => .error (.typeError "legacy session record has an unsupported shape or version")

/-- Project a session record; none for one that is unrepresentable. -/
def toLegacy (value : Bytes) : Except StoreError (Option Value) := do
  let projection ← components.projectSession value
  return projection.map recordToLegacy

end Session

/-- The codecs of all projected stores. -/
def createCodecs (host : CodecHost) (keys : KeyComponents) (signal : SignalComponents)
    (defaults : Option SignalDefaults) : Codecs where
  legacyKey := SignalRouting.legacyKey
  fromLegacy store key value :=
    match store with
    | .identity => Identity.fromLegacy value
    | .session => Session.fromLegacy signal defaults value
    | .prekey => PreKey.fromLegacy keys key value
    | .senderKey => SenderKey.fromLegacy host signal value
    | .syncKey => SyncKey.fromLegacy host keys value
    | .syncVersion => SyncVersion.fromLegacy host.localeCompare value
    | .deviceList => DeviceList.fromLegacy key value
    | .tcToken => TcToken.fromLegacy value
    | .lidMapping => LidMapping.fromLegacy key value
  toLegacy store key value :=
    match store with
    | .identity => Identity.toLegacy value
    | .session => Session.toLegacy signal value
    | .prekey => PreKey.toLegacy keys value
    | .senderKey => SenderKey.toLegacy host signal value
    | .syncKey => SyncKey.toLegacy host keys value
    | .syncVersion => SyncVersion.toLegacy value
    | .deviceList => DeviceList.toLegacy value
    | .tcToken => TcToken.toLegacy value
    | .lidMapping => LidMapping.toLegacy key value

end Baileyrs.LegacyProjection
