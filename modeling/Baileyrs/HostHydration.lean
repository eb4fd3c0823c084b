import Baileyrs.DeviceRounds

/-!
# Credentials of a host

A host without the legacy adapter reads the persisted device record itself and assigns
its fields to fresh credentials. On a complete record these are the credentials that the
device projection of the adapter makes of the same record.
-/

namespace Baileyrs.HostHydration

open JsString AtomicStore LegacyValues LegacyProjection RuntimeBytes DeviceCredentials

section Record

variable {Account : Type} (host : DeviceHost Account)

/-- A step that assigns to credentials and may throw. -/
abbrev Hydration (Account : Type) := ExceptT StoreError (StateM (Creds Account))

/-- The result of a check. -/
def checked {α : Type} (result : Except StoreError α) : Hydration Account α := ExceptT.mk (pure result)

/-- A name is a property of a record; a primitive value has no properties to search. -/
def hasField (record : Value) (name : String) : Except StoreError Bool :=
  match record with
  | .object members => .ok (property name members).isSome
  | .message members _ => .ok (property name members).isSome
  | .bytes _ => .ok false
  | .date _ => .ok false
  | .array _ => .ok false
  | .unsupported _ => .ok false
  | primitive => do
    let text ← templateText host primitive
    throw (.typeError ("Cannot use 'in' operator to search for '"++name++"' in "++shown text))

/-- Domains of own JIDs by phone number. -/
def pnDomains : List JsString := ["c.us","s.whatsapp.net","hosted"].map ofString

/-- Domains of own JIDs by LID. -/
def lidDomains : List JsString := ["lid","hosted.lid"].map ofString

/-- A JID of a persisted record. -/
structure PersistedJid where
  /-- User. -/
  user : JsString
  /-- Server. -/
  server : JsString
  /-- Device, or undefined. -/
  device : Value

/-- A device is absent or a safe unsigned integer. -/
def isDevice : Value → Bool
  | .undefined => true
  | .number x => isSafeUnsigned x
  | _ => false

/-- Read a JID of a persisted record. -/
def parsePersistedJid (record : Value) (field : String) (domains : List JsString) :
    Except StoreError (Option PersistedJid) := do
  let value ← valueMember record field
  if value.isNullish then return none
  else
    match optionalMember value "user",optionalMember value "server" with
    | .string user,.string server =>
      if user = [] ∨ server ∉ domains ∨ isDevice (optionalMember value "device") = false then
        throw (.error ("persisted auth record contains an invalid "++field++" JID"))
      else return some ⟨user,server,optionalMember value "device"⟩
    | _,_ => throw (.error ("persisted auth record contains an invalid "++field++" JID"))

/-- Text of a JID of a persisted record. -/
def PersistedJid.encode (jid : PersistedJid) : Except StoreError JsString :=
  jidEncode host (.string jid.user) (.string jid.server) jid.device

/-- Bytes of an array of bytes. -/
def asBytes : Value → Option Bytes
  | .array items => items.mapM itemByte
  | _ => none

/-- Key pair of an array of bytes that are not all zero. -/
def keyPair (value : Value) : Option KeyPair :=
  match asBytes value with
  | none => none
  | some bytes => if bytes.length ≠ 64 ∨ bytes.all (· == 0) = true then none else some ⟨bytes.take 32,bytes.drop 32⟩

/-- Number of a safe unsigned integer. -/
def safeUnsigned : Value → Option JsNumber
  | .number x => if isSafeUnsigned x then some x else none
  | _ => none

/-- A number is over the largest registration id. -/
def exceedsRegistration (x : JsNumber) : Bool := 2147483647 < x.ratio.1/x.ratio.2

/-- Assign the registration id. -/
def hydrateRegistration (record : Value) : Hydration Account Unit := do
  let registration := safeUnsigned (optionalMember record "registration_id")
  if (← checked (hasField host record "registration_id")) && (registration.all exceedsRegistration) then
    throw (.error "invalid persisted registration id")
  match registration with
  | some registration => modify fun creds => { creds with registrationId := .number registration }
  | none => pure ()

/-- Names of the fields of a signing bundle. -/
def signingFields : List String :=
  ["identity_key","signed_pre_key","signed_pre_key_id","signed_pre_key_signature"]

/-- A record has a field of a signing bundle. -/
def hasSigningRecord (record : Value) : List String → Except StoreError Bool
  | [] => .ok false
  | field::rest => do
    if ← hasField host record field then return true
    else hasSigningRecord record rest

/-- The signing bundle of a record, unless it is incomplete. -/
def signingBundle (record : Value) : Option (KeyPair × SignedKeyPair) := do
  let identityKey ← keyPair (optionalMember record "identity_key")
  let signedPreKey ← keyPair (optionalMember record "signed_pre_key")
  let signature ← asBytes (optionalMember record "signed_pre_key_signature")
  let keyId ← safeUnsigned (optionalMember record "signed_pre_key_id")
  if signature.length ≠ 64 then none else some (identityKey,⟨signedPreKey,.number keyId,signature⟩)

/-- Assign the keys; both groups are checked before the first is assigned. -/
def hydrateKeys (record : Value) : Hydration Account Unit := do
  let noiseKey := keyPair (optionalMember record "noise_key")
  if (← checked (hasField host record "noise_key")) && noiseKey.isNone then
    throw (.error "persisted auth record contains an invalid noise key")
  let hasSigning ← checked (hasSigningRecord host record signingFields)
  let bundle := signingBundle record
  if hasSigning && bundle.isNone then
    throw (.error "persisted auth record contains an incomplete signing bundle")
  match noiseKey with
  | some noiseKey => modify fun creds => { creds with noiseKey := some noiseKey }
  | none => pure ()
  match hasSigning,bundle with
  | true,some (identityKey,signedPreKey) =>
    modify fun creds => { creds with signedIdentityKey := some identityKey, signedPreKey := some signedPreKey }
  | _,_ => pure ()

/-- Assign the secret of the pairing. -/
def hydrateSecret (record : Value) : Hydration Account Unit := do
  let advSecret := asBytes (optionalMember record "adv_secret_key")
  if (← checked (hasField host record "adv_secret_key")) && advSecret.all (·.length != 32) then
    throw (.error "persisted auth record contains an invalid adv secret")
  match advSecret with
  | some advSecret => modify fun creds => { creds with advSecretKey := base64Encode advSecret }
  | none => pure ()

/-- Assign the id of the next pre-key. -/
def hydrateCounter (record : Value) : Hydration Account Unit := do
  let next := safeUnsigned (optionalMember record "next_pre_key_id")
  if (← checked (hasField host record "next_pre_key_id")) && next.isNone then
    throw (.error "invalid persisted pre-key counter")
  match next with
  | some next =>
    modify fun creds => { creds with nextPreKeyId := .number next, firstUnuploadedPreKeyId := .number next }
  | none => pure ()

/-- Assign the hash of the properties. -/
def hydrateHash (record : Value) : Hydration Account Unit :=
  match optionalMember record "props_hash" with
  | .string hash => modify fun creds => { creds with lastPropHash := .string hash }
  | _ => pure ()

/-- Text of a value, if it is one. -/
def textValue : Value → Option JsString
  | .string text => some text
  | _ => none

/-- Assign the own contact, and whether the device was paired. -/
def hydrateContact (record : Value) (pn lid : Option PersistedJid) : Hydration Account Unit := do
  match pn with
  | some pn =>
    let id ← checked (pn.encode host)
    let lid ← match lid with
      | some lid => (checked (lid.encode host)).map some
      | none => pure none
    modify fun creds => { creds with me := some ⟨id,lid,textValue (optionalMember record "push_name")⟩ }
  | none =>
    match optionalMember record "push_name" with
    | .string name => modify fun creds => { creds with me := some ⟨[],none,some name⟩ }
    | _ => pure ()
  modify fun creds => if creds.me.any (·.id != []) then { creds with registered := true } else creds

/-- Assign the platform. -/
def hydratePlatform (record : Value) : Hydration Account Unit :=
  match optionalMember record "platform" with
  | .string platform => modify fun creds => { creds with platform := some platform }
  | _ => pure ()

/-- Assign where the server routes the connection. -/
def hydrateRouting (record : Value) : Hydration Account Unit := do
  let routingInfo := optionalMember record "edge_routing_info"
  let routingBytes := asBytes routingInfo
  let isNull := match routingInfo with
    | .null => true
    | _ => false
  if (← checked (hasField host record "edge_routing_info")) && (!isNull && routingBytes.isNone) then
    throw (.error "persisted auth record contains invalid routing info")
  if isNull then modify fun creds => { creds with routingInfo := none }
  else
    match routingBytes with
    | some routingBytes => modify fun creds => { creds with routingInfo := some routingBytes }
    | none => pure ()

/-- Assign the signed identity. -/
def hydrateAccount (accountPayload : Option Bytes) : Hydration Account Unit :=
  match accountPayload with
  | some accountPayload => do
    let account ← checked (host.decodeAccount accountPayload)
    modify fun creds => { creds with account := some account }
  | none => pure ()

/-- Parse a persisted record. -/
def parseRecord (payload : Bytes) : Except StoreError Value :=
  match fromJsonBytes payload with
  | .ok record => .ok record
  | .error _ => .error (.error "failed to hydrate persisted auth record 'device'")

/-- Assign what is persisted of a device to credentials. -/
def hydrateHostAuthCreds (payload accountPayload : Option Bytes) : Hydration Account Unit :=
  match payload with
  | none => hydrateAccount host accountPayload
  | some payload => do
    let record ← checked (parseRecord payload)
    let pn ← checked (parsePersistedJid record "pn" pnDomains)
    let lid ← checked (parsePersistedJid record "lid" lidDomains)
    hydrateRegistration host record
    hydrateKeys host record
    hydrateSecret host record
    hydrateCounter host record
    hydrateHash record
    hydrateContact host record pn lid
    hydratePlatform record
    hydrateRouting host record
    hydrateAccount host accountPayload

end Record

section Steps

variable {Account α β : Type} {host : DeviceHost Account} {creds next : Creds Account}

/-- Result of a step, and the credentials it leaves. -/
def Hydration.on (step : Hydration Account α) (creds : Creds Account) : Except StoreError α × Creds Account :=
  step.run.run creds

/-- A step that returns is followed by the next. -/
theorem on_bind {step : Hydration Account α} {value : α} (h : step.on creds = (.ok value,next))
    (rest : α → Hydration Account β) : (step >>= rest).on creds = (rest value).on next := by
  have hrun : step.run.run creds = (.ok value,next) := h
  unfold Hydration.on
  rw [ExceptT.run_bind,StateT.run_bind,hrun]
  rfl

theorem on_checked {result : Except StoreError α} {value : α} (h : result = .ok value) :
    (checked result : Hydration Account α).on creds = (.ok value,creds) := by
  rw [h]
  rfl

/-- A property that is there is a field. -/
theorem hasField_property {members : List (JsString × Value)} {name : String} {value : Value}
    (h : property name members = some value) : hasField host (.object members) name = .ok true := by
  rw [hasField,h]
  rfl

theorem optionalMember_property {members : List (JsString × Value)} {name : String} {value : Value}
    (h : property name members = some value) : optionalMember (.object members) name = value := by
  change (property name members).getD .undefined = value
  rw [h]
  rfl

variable {members : List (JsString × Value)}

/-- A registration id in range is assigned. -/
theorem hydrateRegistration_number {x : JsNumber} (h : property "registration_id" members = some (.number x))
    (hsafe : isSafeUnsigned x = true) (hrange : exceedsRegistration x = false) :
    (hydrateRegistration host (.object members)).on creds = (.ok (),{ creds with registrationId := .number x }) := by
  have hvalue : safeUnsigned (optionalMember (.object members) "registration_id") = some x := by
    rw [optionalMember_property h,safeUnsigned,if_pos hsafe]
  unfold hydrateRegistration
  rw [hvalue]
  dsimp only
  rw [on_bind (on_checked (hasField_property h)),Option.all_some,hrange]
  rfl

/-- An array of bytes, of which one is not zero. -/
structure ByteArray (value : Value) (data : Bytes) (length : ℕ) : Prop where
  /-- Its bytes. -/
  bytes : asBytes value = some data
  /-- Their number. -/
  length : data.length = length
  /-- One is not zero. -/
  nonzero : Nonzero data

/-- Key pair of sixty-four bytes. -/
def pairOf (data : Bytes) : KeyPair := ⟨data.take 32,data.drop 32⟩

theorem keyPair_array {value : Value} {data : Bytes} (h : ByteArray value data 64) :
    keyPair value = some (pairOf data) := by
  have hlengths : ¬(data.length ≠ 64 ∨ data.all (· == 0) = true) := by
    rw [h.length,h.nonzero.all]
    decide
  rw [keyPair,h.bytes]
  dsimp only
  rw [if_neg hlengths]
  rfl

/-- A field that is an array of bytes. -/
def ByteField (members : List (JsString × Value)) (name : String) (data : Bytes) (length : ℕ) : Prop :=
  ∃ value, property name members = some value ∧ ByteArray value data length

/-- A field that is a counter. -/
def CounterField (members : List (JsString × Value)) (name : String) (x : JsNumber) : Prop :=
  property name members = some (.number x) ∧ isSafeUnsigned x = true

theorem CounterField.value {name : String} {x : JsNumber} (h : CounterField members name x) :
    safeUnsigned (optionalMember (.object members) name) = some x := by
  rw [optionalMember_property h.1,safeUnsigned,if_pos h.2]

theorem ByteField.asBytes {name : String} {data : Bytes} {length : ℕ} (h : ByteField members name data length) :
    asBytes (optionalMember (.object members) name) = some data := by
  obtain ⟨value,hproperty,harray⟩ := h
  rw [optionalMember_property hproperty,harray.bytes]

theorem ByteField.keyPair {name : String} {data : Bytes} (h : ByteField members name data 64) :
    keyPair (optionalMember (.object members) name) = some (pairOf data) := by
  obtain ⟨value,hproperty,harray⟩ := h
  rw [optionalMember_property hproperty,keyPair_array harray]

theorem ByteField.hasField {name : String} {data : Bytes} {length : ℕ} (h : ByteField members name data length) :
    hasField host (.object members) name = .ok true := by
  obtain ⟨value,hproperty,_⟩ := h
  exact hasField_property hproperty

variable {noise identity signed signature secret : Bytes} {keyId x : JsNumber}

/-- Complete keys are assigned. -/
theorem hydrateKeys_complete (hnoise : ByteField members "noise_key" noise 64)
    (hidentity : ByteField members "identity_key" identity 64) (hsigned : ByteField members "signed_pre_key" signed 64)
    (hkeyId : CounterField members "signed_pre_key_id" keyId)
    (hsignature : ByteField members "signed_pre_key_signature" signature 64) :
    (hydrateKeys host (.object members)).on creds = (.ok (),{ creds with
      noiseKey := some (pairOf noise)
      signedIdentityKey := some (pairOf identity)
      signedPreKey := some ⟨pairOf signed,.number keyId,signature⟩ }) := by
  have hbundle : signingBundle (.object members) =
      some (pairOf identity,⟨pairOf signed,.number keyId,signature⟩) := by
    obtain ⟨_,_,harray⟩ := hsignature.imp fun _ h => h
    have hlength : ¬signature.length ≠ 64 := fun hne => hne harray.length
    unfold signingBundle
    rw [hidentity.keyPair,hsigned.keyPair,hsignature.asBytes,hkeyId.value]
    dsimp only [bind,Option.bind]
    rw [if_neg hlength]
  have hsigning : hasSigningRecord host (.object members) signingFields = .ok true := by
    rw [signingFields,hasSigningRecord,hidentity.hasField]
    rfl
  unfold hydrateKeys
  rw [hnoise.keyPair,hbundle]
  dsimp only
  rw [on_bind (on_checked hnoise.hasField),Option.isNone_some,Bool.and_false,if_neg Bool.false_ne_true]
  rw [on_bind (on_checked hsigning)]
  rfl

/-- A complete secret is assigned. -/
theorem hydrateSecret_complete (h : ByteField members "adv_secret_key" secret 32) :
    (hydrateSecret host (.object members)).on creds =
      (.ok (),{ creds with advSecretKey := base64Encode secret }) := by
  have hlength : (secret.length != 32) = false := by
    obtain ⟨_,_,harray⟩ := h
    rw [harray.length]
    rfl
  unfold hydrateSecret
  rw [h.asBytes]
  dsimp only
  rw [on_bind (on_checked h.hasField),Option.all_some,hlength]
  rfl

/-- A counter is assigned. -/
theorem hydrateCounter_counter (h : CounterField members "next_pre_key_id" x) :
    (hydrateCounter host (.object members)).on creds =
      (.ok (),{ creds with nextPreKeyId := .number x, firstUnuploadedPreKeyId := .number x }) := by
  unfold hydrateCounter
  rw [h.value]
  dsimp only
  rw [on_bind (on_checked (hasField_property h.1))]
  rfl

/-- A hash that is absent, `null` or a text. -/
inductive HashField : Value → Option JsString → Prop
  | absent : HashField .undefined none
  | null : HashField .null none
  | text (hash : JsString) : HashField (.string hash) (some hash)

/-- A text is assigned. -/
theorem hydrateHash_field {hash : Option JsString}
    (h : HashField (optionalMember (.object members) "props_hash") hash) :
    (hydrateHash (.object members)).on creds =
      (.ok (),{ creds with lastPropHash := (hash.map .string).getD creds.lastPropHash }) := by
  unfold hydrateHash
  revert h
  generalize optionalMember (.object members) "props_hash" = value
  intro h
  cases h with
  | absent => rfl
  | null => rfl
  | text hash => rfl

/-- A text is assigned. -/
theorem hydratePlatform_text (record : Value) :
    (hydratePlatform record).on creds =
      (.ok (),{ creds with platform := (textValue (optionalMember record "platform")).or creds.platform }) := by
  unfold hydratePlatform
  cases optionalMember record "platform" <;> rfl

/-- Routing information that is absent, `null` or an array of bytes. -/
inductive RoutingField (members : List (JsString × Value)) : Option (Option Bytes) → Prop
  | absent : property "edge_routing_info" members = none → RoutingField members none
  | null : property "edge_routing_info" members = some .null → RoutingField members (some none)
  | bytes {items : List Value} {data : Bytes} : property "edge_routing_info" members = some (.array items) →
    items.mapM itemByte = some data → RoutingField members (some (some data))

/-- Bytes are assigned, and `null` removes them. -/
theorem hydrateRouting_field {routing : Option (Option Bytes)} (h : RoutingField members routing) :
    (hydrateRouting host (.object members)).on creds =
      (.ok (),{ creds with routingInfo := routing.getD creds.routingInfo }) := by
  unfold hydrateRouting
  cases h with
  | absent habsent =>
    have hfield : hasField host (.object members) "edge_routing_info" = .ok false := by
      rw [hasField,habsent]
      rfl
    have hmember : optionalMember (.object members) "edge_routing_info" = .undefined := by
      change (property "edge_routing_info" members).getD .undefined = _
      rw [habsent]
      rfl
    rw [hmember]
    dsimp only
    rw [on_bind (on_checked hfield)]
    rfl
  | null hnull =>
    rw [optionalMember_property hnull]
    dsimp only
    rw [on_bind (on_checked (hasField_property hnull))]
    rfl
  | @bytes items data hproperty hbytes =>
    rw [optionalMember_property hproperty]
    dsimp only
    rw [on_bind (on_checked (hasField_property hproperty)),asBytes,hbytes]
    rfl

/-- A field that is a JID of its domains. -/
structure JidField (members : List (JsString × Value)) (field : String) (domains : List JsString)
    (jid : PersistedJid) : Prop where
  /-- It is a record of the user, the server and the device. -/
  record : ∃ jidMembers, property field members = some (.object jidMembers) ∧
    property "user" jidMembers = some (.string jid.user) ∧ property "server" jidMembers = some (.string jid.server) ∧
    optionalMember (.object jidMembers) "device" = jid.device
  /-- A user is given. -/
  user : jid.user ≠ []
  /-- The server is one of the domains. -/
  server : jid.server ∈ domains
  /-- The device is absent or a safe unsigned integer. -/
  device : isDevice jid.device = true

/-- A JID is read as it is. -/
theorem JidField.parse {field : String} {domains : List JsString} {jid : PersistedJid}
    (h : JidField members field domains jid) : parsePersistedJid (.object members) field domains = .ok (some jid) := by
  obtain ⟨jidMembers,hproperty,huser,hserver,hdevice⟩ := h.record
  have hvalid : ¬(jid.user = [] ∨ jid.server ∉ domains ∨ isDevice jid.device = false) := by
    rw [h.device]
    exact not_or.mpr ⟨h.user,not_or.mpr ⟨not_not.mpr h.server,by decide⟩⟩
  have hmember : valueMember (.object members) field = .ok (.object jidMembers) := by
    rw [valueMember,hproperty]
    rfl
  unfold parsePersistedJid
  rw [hmember]
  dsimp only [bind,Except.bind]
  rw [optionalMember_property huser,optionalMember_property hserver,hdevice]
  dsimp only
  rw [if_neg hvalid]
  rfl

/-- A device that is absent is written like zero. -/
theorem jidEncode_orElse (user server : Value) {device : Value} (h : isDevice device = true) :
    jidEncode host user server (orElse device (.number .zero)) = jidEncode host user server device := by
  cases device with
  | undefined => rfl
  | number x => rfl
  | _ => cases h

theorem text_ne_nil (userText deviceText server : JsString) : userText++(deviceText++unit '@'::server) ≠ [] :=
  List.append_ne_nil_of_right_ne_nil _ (List.append_ne_nil_of_right_ne_nil _ (List.cons_ne_nil _ _))

/-- Every JID of a record has a text. -/
theorem PersistedJid.encode_ok {jid : PersistedJid} (huser : jid.user ≠ []) (h : isDevice jid.device = true) :
    ∃ text, jid.encode host = .ok text ∧ text ≠ [] := by
  unfold PersistedJid.encode jidEncode
  rw [isTruthy_string huser,if_pos rfl]
  cases hcase : jid.device with
  | undefined => exact ⟨_,rfl,text_ne_nil jid.user [] jid.server⟩
  | number x =>
    cases htruthy : (Value.number x).isTruthy with
    | true => exact ⟨_,rfl,text_ne_nil jid.user (unit ':'::x.text) jid.server⟩
    | false => exact ⟨_,rfl,text_ne_nil jid.user [] jid.server⟩
  | _ =>
    rw [hcase] at h
    cases h

/-- The adapter writes a JID alike. -/
theorem JidField.native {field : String} {domains : List JsString} {jid : PersistedJid}
    (h : JidField members field domains jid) (hdomains : [] ∉ domains) :
    nativeJidToString host (optionalMember (.object members) field) = (jid.encode host).map some := by
  obtain ⟨jidMembers,hproperty,huser,hserver,hdevice⟩ := h.record
  have hgiven : jid.server ≠ [] := fun hnil => hdomains (hnil ▸ h.server)
  have hgates : ¬((Value.string jid.user).isTruthy = false ∨ (Value.string jid.server).isTruthy = false) := by
    rw [isTruthy_string h.user,isTruthy_string hgiven]
    decide
  unfold nativeJidToString
  rw [optionalMember_property hproperty,optionalMember_property huser,optionalMember_property hserver,hdevice,
    if_neg hgates,jidEncode_orElse _ _ h.device]
  rfl

/-- Texts of a JID that may be absent. -/
inductive Encoded (host : DeviceHost Account) : Option PersistedJid → Option JsString → Prop
  | absent : Encoded host none none
  | text {jid : PersistedJid} {text : JsString} : jid.encode host = .ok text → Encoded host (some jid) (some text)

/-- The own contact is assigned, and the device was paired. -/
theorem hydrateContact_complete {pn : PersistedJid} {lid : Option PersistedJid} {id : JsString}
    {lidText : Option JsString} (hpn : pn.encode host = .ok id) (hid : id ≠ []) (hlid : Encoded host lid lidText)
    (record : Value) :
    (hydrateContact host record (some pn) lid).on creds = (.ok (),{ creds with
      me := some ⟨id,lidText,textValue (optionalMember record "push_name")⟩
      registered := true }) := by
  have hpaired : (some (Me.mk id lidText (textValue (optionalMember record "push_name")))).any (·.id != []) = true := by
    rw [Option.any_some]
    exact bne_iff_ne.mpr hid
  have hcontact : (hydrateContact host record (some pn) lid).on creds =
      (modify fun creds : Creds Account => if creds.me.any (·.id != []) then { creds with registered := true } else creds :
        Hydration Account Unit).on { creds with me := some ⟨id,lidText,textValue (optionalMember record "push_name")⟩ } := by
    unfold hydrateContact
    dsimp only
    rw [on_bind (on_checked hpn)]
    cases hlid with
    | absent => rfl
    | text hlid =>
      dsimp only
      rw [hlid]
      rfl
  rw [hcontact]
  change (Except.ok (),if Option.any _ (some (Me.mk id lidText _)) = true then _ else _) = _
  rw [if_pos hpaired]

end Steps

section Agreement

variable {Account : Type} {host : DeviceHost Account} {members : List (JsString × Value)}

/-- What a device record says. -/
structure Persisted where
  /-- Own JID by phone number. -/
  pn : PersistedJid
  /-- Own JID by LID. -/
  lid : Option PersistedJid
  /-- Registration id. -/
  registrationId : JsNumber
  /-- Keys of the transport. -/
  noiseKey : Bytes
  /-- Identity keys. -/
  identityKey : Bytes
  /-- Keys of the signed pre-key. -/
  signedPreKey : Bytes
  /-- Id of the signed pre-key. -/
  keyId : JsNumber
  /-- Its signature. -/
  signature : Bytes
  /-- Secret of the pairing. -/
  advSecret : Bytes
  /-- Id of the next pre-key. -/
  nextPreKeyId : JsNumber
  /-- Hash of the properties. -/
  propsHash : Option JsString
  /-- Routing information, `none` of which is given as `null`. -/
  routingInfo : Option (Option Bytes)

/-- A LID that is absent, `null` or a JID. -/
inductive LidField (members : List (JsString × Value)) : Option PersistedJid → Prop
  | absent : (optionalMember (.object members) "lid").isNullish = true → LidField members none
  | given {jid : PersistedJid} : JidField members "lid" lidDomains jid → LidField members (some jid)

/-- A complete device record. Its name and its platform may be anything. -/
structure DeviceRecord (members : List (JsString × Value)) (said : Persisted) : Prop where
  /-- The own JID is of a phone number. -/
  pn : JidField members "pn" pnDomains said.pn
  /-- There may be a LID. -/
  lid : LidField members said.lid
  /-- The registration id is a counter. -/
  registrationId : CounterField members "registration_id" said.registrationId
  /-- It is in range. -/
  registrationRange : exceedsRegistration said.registrationId = false
  /-- Keys of the transport. -/
  noiseKey : ByteField members "noise_key" said.noiseKey 64
  /-- Identity keys. -/
  identityKey : ByteField members "identity_key" said.identityKey 64
  /-- Keys of the signed pre-key. -/
  signedPreKey : ByteField members "signed_pre_key" said.signedPreKey 64
  /-- The id of the signed pre-key is a counter. -/
  keyId : CounterField members "signed_pre_key_id" said.keyId
  /-- Its signature. -/
  signature : ByteField members "signed_pre_key_signature" said.signature 64
  /-- Secret of the pairing. -/
  advSecret : ByteField members "adv_secret_key" said.advSecret 32
  /-- The id of the next pre-key is a counter. -/
  nextPreKeyId : CounterField members "next_pre_key_id" said.nextPreKeyId
  /-- There may be a hash of the properties. -/
  propsHash : HashField (optionalMember (.object members) "props_hash") said.propsHash
  /-- There may be routing information. -/
  routingInfo : RoutingField members said.routingInfo

variable {said : Persisted}

theorem requireByteArray_bytes {value : Value} {data : Bytes} (h : asBytes value = some data) (label : String) :
    requireByteArray value label = .ok data := by
  cases value with
  | array items =>
    have hitems : items.mapM itemByte = some data := h
    rw [requireByteArray_array,hitems]
  | _ => cases h

/-- The adapter reads a key pair alike. -/
theorem ByteField.pair {name : String} {data : Bytes} (h : ByteField members name data 64) (label : String) :
    numbersToKeyPair (optionalMember (.object members) name) label = .ok (some (pairOf data)) := by
  obtain ⟨value,hproperty,harray⟩ := h
  have hlength : ¬data.length ≠ 64 := fun hne => hne harray.length
  have hread := requireByteArray_bytes harray.bytes label
  rw [optionalMember_property hproperty]
  unfold numbersToKeyPair
  cases value with
  | array items =>
    dsimp only
    rw [hread]
    dsimp only [bind,Except.bind]
    rw [if_neg hlength,harray.nonzero.all,if_neg Bool.false_ne_true]
    rfl
  | _ => cases harray.bytes

/-- The adapter reads bytes alike. -/
theorem ByteField.read {name : String} {data : Bytes} {length : ℕ} (h : ByteField members name data length)
    (label short : String) :
    optionalBytes (optionalMember (.object members) name) length label short = .ok (some data) := by
  obtain ⟨value,hproperty,harray⟩ := h
  have hlength : ¬data.length ≠ length := fun hne => hne harray.length
  have hread := requireByteArray_bytes harray.bytes label
  rw [optionalMember_property hproperty]
  unfold optionalBytes
  cases value with
  | array items =>
    dsimp only
    rw [hread]
    dsimp only [bind,Except.bind]
    rw [if_neg hlength]
    rfl
  | _ => cases harray.bytes

/-- The adapter reads a counter alike. -/
theorem CounterField.read {name : String} {x : JsNumber} (h : CounterField members name x) (label : String) :
    optionalCounter (optionalMember (.object members) name) label = .ok (some x) := by
  rw [optionalMember_property h.1]
  unfold optionalCounter requireSafeUnsignedInteger
  dsimp only
  rw [if_pos h.2]
  rfl

/-- The adapter reads routing information alike. -/
theorem RoutingField.read {routing : Option (Option Bytes)} (h : RoutingField members routing) :
    optionalRouting (optionalMember (.object members) "edge_routing_info") = .ok routing := by
  cases h with
  | absent habsent =>
    change optionalRouting ((property "edge_routing_info" members).getD .undefined) = _
    rw [habsent]
    rfl
  | null hnull =>
    rw [optionalMember_property hnull]
    rfl
  | bytes hproperty hbytes =>
    rw [optionalMember_property hproperty]
    unfold optionalRouting
    dsimp only
    rw [requireByteArray_array,hbytes]
    rfl

/-- Both read the same LID. -/
theorem LidField.read {lid : Option PersistedJid} (h : LidField members lid) :
    ∃ lidText, parsePersistedJid (.object members) "lid" lidDomains = .ok lid ∧ Encoded host lid lidText ∧
      nativeJidToString host (optionalMember (.object members) "lid") = .ok lidText := by
  cases h with
  | absent hnullish =>
    refine ⟨none,?_,.absent,?_⟩
    · change (if (optionalMember (.object members) "lid").isNullish = true then Except.ok none else _) = _
      rw [if_pos hnullish]
    · cases hlid : optionalMember (.object members) "lid" with
      | undefined => rfl
      | null => rfl
      | _ =>
        rw [hlid] at hnullish
        cases hnullish
  | @given jid hjid =>
    obtain ⟨text,htext,_⟩ : ∃ text, jid.encode host = .ok text ∧ text ≠ [] := PersistedJid.encode_ok hjid.user hjid.device
    refine ⟨some text,hjid.parse,.text htext,?_⟩
    rw [hjid.native (by decide),htext]
    rfl

/-- The fields of a parsed record. -/
def fields (members : List (JsString × Value)) : NativeDevice :=
  let member := optionalMember (.object members)
  ⟨member "pn",member "lid",member "registration_id",member "noise_key",member "identity_key",member "signed_pre_key",
    member "signed_pre_key_id",member "signed_pre_key_signature",member "adv_secret_key",member "push_name",
    member "platform",member "edge_routing_info",member "props_hash",member "next_pre_key_id"⟩

/-- What the adapter checks of a complete record. -/
def Persisted.prepared (said : Persisted) (members : List (JsString × Value)) (id : JsString)
    (lidText : Option JsString) : PreparedDevice where
  native := fields members
  pn := some id
  lid := lidText
  registrationId := some said.registrationId
  nextPreKeyId := some said.nextPreKeyId
  noiseKey := some (pairOf said.noiseKey)
  identityKey := some (pairOf said.identityKey)
  signedPreKey := some (pairOf said.signedPreKey)
  signature := some said.signature
  advSecret := some said.advSecret
  routingInfo := said.routingInfo

variable {id : JsString} {lidText : Option JsString}

/-- A complete record passes the checks of the adapter. -/
theorem DeviceRecord.prepare (h : DeviceRecord members said) (hpn : said.pn.encode host = .ok id)
    (hlid : nativeJidToString host (optionalMember (.object members) "lid") = .ok lidText) {payload : Bytes}
    (hpayload : fromJsonBytes payload = .ok (.object members)) :
    prepareNativeDevice host payload = .ok (said.prepared members id lidText) := by
  have hown : nativeJidToString host (fields members).pn = .ok (some id) := by
    change nativeJidToString host (optionalMember (.object members) "pn") = _
    rw [h.pn.native (by decide),hpn]
    rfl
  have hrecord : NativeDevice.ofRecord (.object members) = .ok (fields members) := rfl
  unfold prepareNativeDevice
  rw [hpayload]
  dsimp only [bind,Except.bind]
  rw [hrecord]
  dsimp only
  rw [hown]
  unfold fields
  dsimp only
  rw [hlid,h.registrationId.read,h.nextPreKeyId.read,h.noiseKey.pair,h.identityKey.pair,h.signedPreKey.pair,
    h.signature.read,h.advSecret.read,h.routingInfo.read]
  rfl

/-- Credentials of a complete record. -/
def Persisted.assign (said : Persisted) (members : List (JsString × Value)) (id : JsString) (lidText : Option JsString)
    (creds : Creds Account) : Creds Account where
  me := some ⟨id,lidText,textValue (optionalMember (.object members) "push_name")⟩
  registered := true
  registrationId := .number said.registrationId
  noiseKey := some (pairOf said.noiseKey)
  signedIdentityKey := some (pairOf said.identityKey)
  signedPreKey := some ⟨pairOf said.signedPreKey,.number said.keyId,said.signature⟩
  advSecretKey := base64Encode said.advSecret
  nextPreKeyId := .number said.nextPreKeyId
  firstUnuploadedPreKeyId := .number said.nextPreKeyId
  lastPropHash := (said.propsHash.map .string).getD creds.lastPropHash
  platform := (textValue (optionalMember (.object members) "platform")).or creds.platform
  routingInfo := said.routingInfo.getD creds.routingInfo
  account := creds.account

/-- The adapter assigns a complete record to fresh credentials. -/
theorem DeviceRecord.apply (h : DeviceRecord members said) {creds : Creds Account} (hme : creds.me = none)
    (hhash : creds.lastPropHash = .undefined) :
    (said.prepared members id lidText).apply creds = said.assign members id lidText creds := by
  have hcontact : ((said.prepared members id lidText).apply creds).me =
      some ⟨id,lidText,textValue (optionalMember (.object members) "push_name")⟩ := by
    change (said.prepared members id lidText).me creds.me = _
    rw [hme]
    unfold PreparedDevice.me Persisted.prepared fields
    dsimp only
    cases lidText with
    | none => cases optionalMember (.object members) "push_name" <;> rfl
    | some lid => cases optionalMember (.object members) "push_name" <;> rfl
  have hsigned : ((said.prepared members id lidText).apply creds).signedPreKey =
      some ⟨pairOf said.signedPreKey,.number said.keyId,said.signature⟩ := by
    obtain ⟨_,_,harray⟩ := h.signature
    change (if said.signature.any (· != 0) then some (SignedKeyPair.mk (pairOf said.signedPreKey)
      (orElse (optionalMember (.object members) "signed_pre_key_id") (.number .zero)) said.signature) else none).or _ = _
    rw [if_pos harray.nonzero.any,optionalMember_property h.keyId.1]
    rfl
  have hsecret : ((said.prepared members id lidText).apply creds).advSecretKey = base64Encode said.advSecret := by
    obtain ⟨_,_,harray⟩ := h.advSecret
    change (if said.advSecret.any (· != 0) then base64Encode said.advSecret else _) = _
    rw [if_pos harray.nonzero.any]
  have hprops : ((said.prepared members id lidText).apply creds).lastPropHash =
      (said.propsHash.map .string).getD creds.lastPropHash := by
    have hfield := h.propsHash
    unfold PreparedDevice.apply Persisted.prepared fields
    dsimp only
    revert hfield
    generalize optionalMember (.object members) "props_hash" = value
    generalize said.propsHash = hash
    intro hfield
    cases hfield with
    | absent => rfl
    | null => exact hhash.symm
    | text hash => rfl
  have hplatform : ((said.prepared members id lidText).apply creds).platform =
      (textValue (optionalMember (.object members) "platform")).or creds.platform := by
    unfold PreparedDevice.apply Persisted.prepared fields
    dsimp only
    cases optionalMember (.object members) "platform" <;> rfl
  calc (said.prepared members id lidText).apply creds
      = { said.assign members id lidText creds with
          me := ((said.prepared members id lidText).apply creds).me
          signedPreKey := ((said.prepared members id lidText).apply creds).signedPreKey
          advSecretKey := ((said.prepared members id lidText).apply creds).advSecretKey
          lastPropHash := ((said.prepared members id lidText).apply creds).lastPropHash
          platform := ((said.prepared members id lidText).apply creds).platform } := rfl
    _ = said.assign members id lidText creds := by
      rw [hcontact,hsigned,hsecret,hprops,hplatform]
      rfl

/-- The host assigns a complete record. -/
theorem DeviceRecord.hydrate (h : DeviceRecord members said) (hpn : said.pn.encode host = .ok id) (hid : id ≠ [])
    (hlid : Encoded host said.lid lidText)
    (hread : parsePersistedJid (.object members) "lid" lidDomains = .ok said.lid) {payload : Bytes}
    (hpayload : fromJsonBytes payload = .ok (.object members)) (accountPayload : Option Bytes) (creds : Creds Account) :
    (hydrateHostAuthCreds host (some payload) accountPayload).on creds =
      (hydrateAccount host accountPayload).on (said.assign members id lidText creds) := by
  have hrecord : parseRecord payload = .ok (.object members) := by
    rw [parseRecord,hpayload]
  unfold hydrateHostAuthCreds
  dsimp only
  rw [on_bind (on_checked hrecord),on_bind (on_checked h.pn.parse),on_bind (on_checked hread),
    on_bind (hydrateRegistration_number h.registrationId.1 h.registrationId.2 h.registrationRange),
    on_bind (hydrateKeys_complete h.noiseKey h.identityKey h.signedPreKey h.keyId h.signature),
    on_bind (hydrateSecret_complete h.advSecret),on_bind (hydrateCounter_counter h.nextPreKeyId),
    on_bind (hydrateHash_field h.propsHash),on_bind (hydrateContact_complete hpn hid hlid _),
    on_bind (hydratePlatform_text _),on_bind (hydrateRouting_field h.routingInfo)]
  rfl

/-- Reading a complete device record into fresh credentials, the host and the adapter leave the
same credentials, and so they do when a signed identity is persisted with it. -/
theorem hydration_agrees (host : DeviceHost Account) (h : DeviceRecord members said) {payload : Bytes}
    (hpayload : fromJsonBytes payload = .ok (.object members)) {creds : Creds Account} (hme : creds.me = none)
    (hhash : creds.lastPropHash = .undefined) :
    ∃ apply, prepareProjection host .device payload = .ok apply ∧
      (hydrateHostAuthCreds host (some payload) none).on creds = (.ok (),apply creds) ∧
      ∀ accountPayload applyAccount, prepareProjection host .account accountPayload = .ok applyAccount →
        (hydrateHostAuthCreds host (some payload) (some accountPayload)).on creds =
          (.ok (),applyAccount (apply creds)) := by
  obtain ⟨id,hpn,hid⟩ : ∃ id, said.pn.encode host = .ok id ∧ id ≠ [] := PersistedJid.encode_ok h.pn.user h.pn.device
  obtain ⟨lidText,hread,hlid,hnative⟩ := @LidField.read _ host _ _ h.lid
  have hprepare := h.prepare hpn hnative hpayload
  have happly : (said.prepared members id lidText).apply creds = said.assign members id lidText creds :=
    h.apply hme hhash
  refine ⟨(said.prepared members id lidText).apply,?_,?_,fun accountPayload applyAccount haccount => ?_⟩
  · change (prepareNativeDevice host payload).map PreparedDevice.apply = _
    rw [hprepare]
    rfl
  · rw [h.hydrate hpn hid hlid hread hpayload,happly]
    rfl
  · rw [h.hydrate hpn hid hlid hread hpayload,happly]
    have hdecoded : ∃ account, host.decodeAccount accountPayload = .ok account ∧
        applyAccount = fun creds => { creds with account := some account } := by
      change (host.decodeAccount accountPayload).map _ = _ at haccount
      cases hdecode : host.decodeAccount accountPayload with
      | error error =>
        rw [hdecode] at haccount
        cases haccount
      | ok account =>
        rw [hdecode] at haccount
        exact ⟨account,rfl,(Except.ok.inj haccount).symm⟩
    obtain ⟨account,hdecode,rfl⟩ := hdecoded
    unfold hydrateAccount
    dsimp only
    rw [on_bind (on_checked hdecode)]
    rfl

/-- Contents of the record of a paired device. -/
def paired : DeviceCredentials.Contents where
  pn := (ofString "1:2@s.whatsapp.net",ofString "1",ofString "s.whatsapp.net",2)
  lid := none
  registrationId := 7
  noiseKey := onesPair
  identityKey := onesPair
  signedPreKey := onesPair
  keyId := 1
  signature := List.replicate 64 3
  advSecret := List.replicate 32 4
  name := ofString "name"
  routingInfo := none
  propsHash := none
  nextPreKeyId := 5

theorem paired_valid : paired.Valid where
  pn := ⟨by decide,by decide,by decide,by decide,by decide,by decide,by decide⟩
  lid := fun _ h => nomatch h
  registrationId := by decide
  noiseKey := onesPair_complete
  identityKey := onesPair_complete
  signedPreKey := onesPair_complete
  keyId := by decide
  signatureLength := rfl
  signatureNonzero := ⟨3,by decide,by decide⟩
  secretLength := rfl
  secretNonzero := ⟨4,by decide,by decide⟩
  nextPreKeyId := by decide

/-- What the record of a paired device says. -/
def pairedRecord : Persisted where
  pn := ⟨ofString "1",ofString "s.whatsapp.net",counter 2⟩
  lid := none
  registrationId := .ofRatio false 7 1
  noiseKey := onesPair.privateKey++onesPair.publicKey
  identityKey := onesPair.privateKey++onesPair.publicKey
  signedPreKey := onesPair.privateKey++onesPair.publicKey
  keyId := .ofRatio false 1 1
  signature := List.replicate 64 3
  advSecret := List.replicate 32 4
  nextPreKeyId := .ofRatio false 5 1
  propsHash := none
  routingInfo := some none

theorem byteField_numbers {name : String} {data : Bytes} {length : ℕ}
    (h : property name members = some (.array (byteNumbers data))) (hlength : data.length = length)
    (hnonzero : Nonzero data) : ByteField members name data length :=
  ⟨_,h,mapM_byteNumbers data,hlength,hnonzero⟩

theorem pairedRecord_complete : DeviceRecord (objectEntries paired.native.record) pairedRecord := by
  have hpair : Nonzero (onesPair.privateKey++onesPair.publicKey) := onesPair_complete.privateNonzero.append _
  have hlength : (onesPair.privateKey++onesPair.publicKey).length = 64 := rfl
  have hpn : JidField (objectEntries paired.native.record) "pn" pnDomains pairedRecord.pn :=
    ⟨⟨_,rfl,rfl,rfl,rfl⟩,by decide,by decide,@isSafeUnsigned_ofRatio 2 (by decide)⟩
  have hregistration : CounterField (objectEntries paired.native.record) "registration_id" pairedRecord.registrationId :=
    ⟨rfl,@isSafeUnsigned_ofRatio 7 (by decide)⟩
  have hkeyId : CounterField (objectEntries paired.native.record) "signed_pre_key_id" pairedRecord.keyId :=
    ⟨rfl,@isSafeUnsigned_ofRatio 1 (by decide)⟩
  have hnext : CounterField (objectEntries paired.native.record) "next_pre_key_id" pairedRecord.nextPreKeyId :=
    ⟨rfl,@isSafeUnsigned_ofRatio 5 (by decide)⟩
  have hrange : exceedsRegistration pairedRecord.registrationId = false := by
    have hratio : pairedRecord.registrationId.ratio.1/pairedRecord.registrationId.ratio.2 = 7 :=
      @ratio_ofRatio_nat 7 (by decide)
    rw [exceedsRegistration,hratio]
    decide
  exact ⟨hpn,.absent rfl,hregistration,hrange,byteField_numbers rfl hlength hpair,byteField_numbers rfl hlength hpair,
    byteField_numbers rfl hlength hpair,hkeyId,byteField_numbers rfl rfl paired_valid.signatureNonzero,
    byteField_numbers rfl rfl paired_valid.secretNonzero,hnext,.null,.null rfl⟩

/-- The host and the adapter read the record of a paired device alike. -/
theorem hydration_agrees_paired :
    ∃ payload apply, prepareProjection plainHost .device payload = .ok apply ∧
      (hydrateHostAuthCreds plainHost (some payload) none).on { pairedCreds with me := none } =
        (.ok (),apply { pairedCreds with me := none }) := by
  obtain ⟨payload,_,hpayload⟩ := paired_valid.clean.bytes
  let creds : Creds Bytes := { pairedCreds with me := none }
  obtain ⟨apply,hprepare,hagree,_⟩ := @hydration_agrees _ _ _ plainHost pairedRecord_complete payload hpayload creds rfl rfl
  exact ⟨payload,apply,hprepare,hagree⟩

end Agreement

end Baileyrs.HostHydration
