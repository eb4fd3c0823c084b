import Baileyrs.CodecRounds
import Baileyrs.DeviceCredentials

/-!
# Device records survive the credentials

A record that is read off complete credentials is applied to credentials without an own
contact, and read off these again as the same bytes. A batch of which a record is
rejected leaves the credentials and what is persisted as they are.
-/

namespace Baileyrs.DeviceCredentials

open JsString AtomicStore LegacyValues LegacyProjection LegacyMirror RuntimeBytes SignalRouting

section Fields

variable {Account : Type} {host : DeviceHost Account}

/-- Bytes of which one is not zero. -/
def Nonzero (data : Bytes) : Prop := ∃ b ∈ data, b ≠ 0

theorem Nonzero.all {data : Bytes} (h : Nonzero data) : data.all (· == 0) = false := by
  obtain ⟨b,hb,hne⟩ := h
  refine List.all_eq_false.mpr ⟨b,hb,?_⟩
  rw [beq_iff_eq]
  exact hne

theorem Nonzero.any {data : Bytes} (h : Nonzero data) : data.any (· != 0) = true := by
  obtain ⟨b,hb,hne⟩ := h
  exact List.any_eq_true.mpr ⟨b,hb,bne_iff_ne.mpr hne⟩

theorem Nonzero.append {first : Bytes} (h : Nonzero first) (second : Bytes) : Nonzero (first++second) := by
  obtain ⟨b,hb,hne⟩ := h
  exact ⟨b,List.mem_append_left _ hb,hne⟩

/-- A complete key pair. -/
structure CompletePair (pair : KeyPair) : Prop where
  /-- The private half has its length. -/
  privateLength : pair.privateKey.length = 32
  /-- So has the public half. -/
  publicLength : pair.publicKey.length = 32
  /-- The private half is not zero. -/
  privateNonzero : Nonzero pair.privateKey
  /-- Nor is the public one. -/
  publicNonzero : Nonzero pair.publicKey

theorem requireByteArray_numbers (data : Bytes) (label : String) :
    requireByteArray (.array (byteNumbers data)) label = .ok data := by
  rw [requireByteArray_array,mapM_byteNumbers]

/-- A key pair is read back from its numbers. -/
theorem numbersToKeyPair_numbers {pair : KeyPair} (h : CompletePair pair) (label : String) :
    numbersToKeyPair (.array (byteNumbers (pair.privateKey++pair.publicKey))) label = .ok (some pair) := by
  have hlength : ¬(pair.privateKey++pair.publicKey).length ≠ 64 := by
    rw [List.length_append,h.privateLength,h.publicLength]
    decide
  have htake : (pair.privateKey++pair.publicKey).take 32 = pair.privateKey := List.take_left' h.privateLength
  have hdrop : (pair.privateKey++pair.publicKey).drop 32 = pair.publicKey := List.drop_left' h.privateLength
  unfold numbersToKeyPair
  dsimp only
  rw [requireByteArray_numbers]
  dsimp only [bind,Except.bind]
  rw [if_neg hlength,(h.privateNonzero.append pair.publicKey).all,if_neg Bool.false_ne_true,htake,hdrop]
  rfl

theorem keyPairToNumbers_pair {pair : KeyPair} (h : CompletePair pair) :
    keyPairToNumbers (some pair) = .ok (byteNumbers (pair.privateKey++pair.publicKey)) := by
  have hlengths : ¬(pair.privateKey.length ≠ 32 ∨ pair.publicKey.length ≠ 32) := by
    rw [h.privateLength,h.publicLength]
    decide
  rw [keyPairToNumbers,if_neg hlengths]

theorem optionalBytes_numbers {data : Bytes} {length : ℕ} (h : data.length = length) (label short : String) :
    optionalBytes (.array (byteNumbers data)) length label short = .ok (some data) := by
  have hlength : ¬data.length ≠ length := fun hne => hne h
  unfold optionalBytes
  dsimp only
  rw [requireByteArray_numbers]
  dsimp only [bind,Except.bind]
  rw [if_neg hlength]
  rfl

theorem optionalCounter_counter {n : ℕ} (h : n < 2^53) (label : String) :
    optionalCounter (counter n) label = .ok (some (.ofRatio false n 1)) := by
  unfold optionalCounter counter
  dsimp only
  have hsafe := requireSafeUnsignedInteger_ofRatio h label
  unfold numberValue at hsafe
  rw [hsafe]
  rfl

/-- An own JID as it is written: a user, a device that is left out when it is zero, and a server. -/
structure OwnJid (jid user server : JsString) (device : ℕ) : Prop where
  /-- Its parts. -/
  text : jid = user++(devicePart device++unit '@'::server)
  /-- A user is given. -/
  given : user ≠ []
  /-- The user has no at sign. -/
  noAt : unit '@' ∉ user
  /-- Nor a colon. -/
  noColon : unit ':' ∉ user
  /-- Nor an underscore. -/
  noUnderscore : unit '_' ∉ user
  /-- A server is given. -/
  domain : server ≠ []
  /-- The device is safe. -/
  safe : device < 2^53

/-- A JID of a record. -/
def nativeJid (user server : JsString) (device : ℕ) : Value :=
  .object [(ofString "user",.string user),(ofString "server",.string server),(ofString "device",counter device),
    (ofString "agent",.number .zero),(ofString "integrator",.number .zero)]

variable {jid user server : JsString} {device : ℕ}

/-- A JID without an agent has the agent zero in its record. -/
theorem agent_zero (server : JsString) :
    (if server ∈ AD_DOMAINS then JsNumber.zero else jidDomainType server none) = .zero := by
  by_cases hdomain : server ∈ AD_DOMAINS
  · rw [if_pos hdomain]
  · have hlid : server ≠ ofString "lid" := fun heq => hdomain (heq ▸ by decide)
    have hhosted : server ≠ ofString "hosted" := fun heq => hdomain (heq ▸ by decide)
    have hhostedLid : server ≠ ofString "hosted.lid" := fun heq => hdomain (heq ▸ by decide)
    rw [if_neg hdomain,jidDomainType,if_neg hlid,if_neg hhosted,if_neg hhostedLid]

/-- The JID of a record for an own JID. -/
theorem legacyJidToNative_own (h : OwnJid jid user server device) :
    legacyJidToNative (some jid) = nativeJid user server device := by
  have hdecoded := jidDecode_device h.noAt h.noColon h.noUnderscore device server
  have hdevice : (if device = 0 then none else some (JsNumber.ofRatio false device 1)).getD .zero =
      JsNumber.ofRatio false device 1 := by
    by_cases hzero : device = 0
    · rw [if_pos hzero,hzero]
      rfl
    · rw [if_neg hzero]
      rfl
  unfold legacyJidToNative nativeJid counter
  rw [Option.bind_some,h.text,hdecoded]
  dsimp only
  rw [hdevice,agent_zero]

/-- A positive number counts as true, and zero does not. -/
theorem isTruthy_counter {n : ℕ} (h : n < 2^53) : (counter n).isTruthy = decide (n ≠ 0) := by
  by_cases hzero : n = 0
  · rw [hzero]
    rfl
  · obtain ⟨hfinite,_,hne,hnegative⟩ := JsNumber.isFinite_ofRatio hzero h
    unfold counter Value.isTruthy
    dsimp only
    rw [JsNumber.isNaN_finite hfinite,decide_eq_false hne,decide_eq_false hnegative,decide_eq_true hzero]
    rfl

theorem isTruthy_string {text : JsString} (h : text ≠ []) : (Value.string text).isTruthy = true := by
  unfold Value.isTruthy
  cases text with
  | nil => exact absurd rfl h
  | cons u rest => rfl

/-- A JID is written from its parts. -/
theorem jidEncode_parts (hgiven : user ≠ []) (hsafe : device < 2^53) :
    jidEncode host (.string user) (.string server) (counter device) =
      .ok (user++(devicePart device++unit '@'::server)) := by
  unfold jidEncode
  rw [isTruthy_string hgiven,isTruthy_counter hsafe,if_pos rfl]
  by_cases hzero : device = 0
  · rw [hzero]
    rfl
  · have htext : templateText host (counter device) = .ok (natText device) := by
      rw [counter,templateText,JsNumber.text_ofRatio hsafe]
    rw [decide_eq_true hzero,devicePart,if_neg hzero]
    change (do
      let deviceText ← (templateText host (counter device)).map (unit ':'::·)
      return user++(deviceText++unit '@'::server)) = _
    rw [htext]
    rfl

/-- The JID of a record is written as the own JID. -/
theorem nativeJidToString_own (h : OwnJid jid user server device) :
    nativeJidToString host (nativeJid user server device) = .ok (some jid) := by
  have huser : optionalMember (nativeJid user server device) "user" = .string user := rfl
  have hserver : optionalMember (nativeJid user server device) "server" = .string server := rfl
  have hdevice : orElse (optionalMember (nativeJid user server device) "device") (.number .zero) = counter device := rfl
  unfold nativeJidToString
  rw [huser,hserver,hdevice,isTruthy_string h.given,isTruthy_string h.domain,if_neg (by decide),
    jidEncode_parts h.given h.safe,h.text]
  rfl

theorem counter_clean {n : ℕ} (h : n < 2^53) : Clean (counter n) :=
  .number _ (isFinite_ofRatio_nat h) (ofRatio_ne_negativeZero h)

theorem nativeJid_clean (h : OwnJid jid user server device) : Clean (nativeJid user server device) := by
  have hzero : Clean (.number .zero) := counter_clean (n := 0) (by decide)
  have hnames : [ofString "user",ofString "server",ofString "device",ofString "agent",ofString "integrator"].Nodup ∧
      named [ofString "user",ofString "server",ofString "device",ofString "agent",ofString "integrator"] = true := by
    decide
  refine .record ?_ hnames
  simp only [List.map_cons,List.map_nil,List.forall_mem_cons,List.not_mem_nil,false_imp_iff,implies_true,and_true]
  exact ⟨.string user,.string server,counter_clean h.safe,hzero,hzero⟩

theorem byteNumbers_clean (data : Bytes) : Clean (.array (byteNumbers data)) := by
  refine .array _ fun item hitem => ?_
  obtain ⟨b,_,rfl⟩ := List.mem_map.mp hitem
  have hbyte := UInt8.toNat_lt b
  exact counter_clean (lt_trans hbyte (by norm_num))

/-- A counter: an unsigned integer that is safe. -/
def IsCounter (value : Value) : Prop := ∃ x, value = .number x ∧ isSafeUnsigned x = true

/-- A counter is written as its integer. -/
theorem IsCounter.value {value : Value} (h : IsCounter value) :
    ∃ n, n < 2^53 ∧ toJson (orElse value (.number .zero)) = toJson (counter n) := by
  obtain ⟨x,rfl,hsafe⟩ := h
  unfold isSafeUnsigned at hsafe
  rw [Bool.or_eq_true,decide_eq_true_eq] at hsafe
  rcases hsafe with hzero | hsafe
  · refine ⟨0,by decide,?_⟩
    rw [hzero]
    rfl
  · dsimp only at hsafe
    rw [Bool.and_eq_true,Bool.and_eq_true,decide_eq_true_eq,decide_eq_true_eq] at hsafe
    obtain ⟨_,hrange,hsame⟩ := hsafe
    refine ⟨_,hrange,?_⟩
    rw [counter,hsame]
    rfl

end Fields

section Projection

variable {Account : Type} {host : DeviceHost Account}

/-- Credentials of a device that was paired. -/
structure Complete (creds : Creds Account) : Prop where
  /-- The own JIDs are canonical. -/
  me : ∃ me, creds.me = some me ∧ (∃ user server device, OwnJid me.id user server device) ∧
    ∀ lid, me.lid = some lid → ∃ user server device, OwnJid lid user server device
  /-- The keys of the transport. -/
  noiseKey : ∃ pair, creds.noiseKey = some pair ∧ CompletePair pair
  /-- The identity keys. -/
  identityKey : ∃ pair, creds.signedIdentityKey = some pair ∧ CompletePair pair
  /-- The signed pre-key. -/
  signedPreKey : ∃ signed, creds.signedPreKey = some signed ∧ CompletePair signed.keyPair ∧
    IsCounter signed.keyId ∧ signed.signature.length = 64 ∧ Nonzero signed.signature
  /-- The secret of the pairing. -/
  advSecret : ∃ secret, base64Decode creds.advSecretKey = .ok secret ∧ secret.length = 32 ∧ Nonzero secret
  /-- The registration id is a counter. -/
  registrationId : IsCounter creds.registrationId
  /-- So is the id of the next pre-key. -/
  nextPreKeyId : IsCounter creds.nextPreKeyId
  /-- A hash of properties is a text. -/
  lastPropHash : creds.lastPropHash = .undefined ∨ ∃ hash, creds.lastPropHash = .string hash

/-- What a record holds. -/
structure Contents where
  /-- Own JID by phone number, and its user, domain and device. -/
  pn : JsString × JsString × JsString × ℕ
  /-- So for the LID, if there is one. -/
  lid : Option (JsString × JsString × JsString × ℕ)
  /-- Registration id. -/
  registrationId : ℕ
  /-- Keys of the transport. -/
  noiseKey : KeyPair
  /-- Identity keys. -/
  identityKey : KeyPair
  /-- Keys of the signed pre-key. -/
  signedPreKey : KeyPair
  /-- Id of the signed pre-key. -/
  keyId : ℕ
  /-- Its signature. -/
  signature : Bytes
  /-- Secret of the pairing. -/
  advSecret : Bytes
  /-- Own name. -/
  name : JsString
  /-- Routing information. -/
  routingInfo : Option Bytes
  /-- Hash of the properties. -/
  propsHash : Option JsString
  /-- Id of the next pre-key. -/
  nextPreKeyId : ℕ

/-- Contents that a record can hold. -/
structure Contents.Valid (contents : Contents) : Prop where
  /-- The own JID is canonical. -/
  pn : OwnJid contents.pn.1 contents.pn.2.1 contents.pn.2.2.1 contents.pn.2.2.2
  /-- So is the LID. -/
  lid : ∀ lid, contents.lid = some lid → OwnJid lid.1 lid.2.1 lid.2.2.1 lid.2.2.2
  /-- The registration id is safe. -/
  registrationId : contents.registrationId < 2^53
  /-- The keys are complete. -/
  noiseKey : CompletePair contents.noiseKey
  /-- The keys are complete. -/
  identityKey : CompletePair contents.identityKey
  /-- The keys are complete. -/
  signedPreKey : CompletePair contents.signedPreKey
  /-- The id of the signed pre-key is safe. -/
  keyId : contents.keyId < 2^53
  /-- The signature has its length. -/
  signatureLength : contents.signature.length = 64
  /-- It is not zero. -/
  signatureNonzero : Nonzero contents.signature
  /-- The secret has its length. -/
  secretLength : contents.advSecret.length = 32
  /-- It is not zero. -/
  secretNonzero : Nonzero contents.advSecret
  /-- The id of the next pre-key is safe. -/
  nextPreKeyId : contents.nextPreKeyId < 2^53

/-- The fields of a record. -/
def Contents.native (contents : Contents) : NativeDevice where
  pn := nativeJid contents.pn.2.1 contents.pn.2.2.1 contents.pn.2.2.2
  lid := (contents.lid.map fun lid => nativeJid lid.2.1 lid.2.2.1 lid.2.2.2).getD .null
  registration_id := counter contents.registrationId
  noise_key := .array (byteNumbers (contents.noiseKey.privateKey++contents.noiseKey.publicKey))
  identity_key := .array (byteNumbers (contents.identityKey.privateKey++contents.identityKey.publicKey))
  signed_pre_key := .array (byteNumbers (contents.signedPreKey.privateKey++contents.signedPreKey.publicKey))
  signed_pre_key_id := counter contents.keyId
  signed_pre_key_signature := .array (byteNumbers contents.signature)
  adv_secret_key := .array (byteNumbers contents.advSecret)
  push_name := .string contents.name
  platform := .undefined
  edge_routing_info := (contents.routingInfo.map fun data => .array (byteNumbers data)).getD .null
  props_hash := (contents.propsHash.map .string).getD .null
  next_pre_key_id := counter contents.nextPreKeyId

variable {contents : Contents}

/-- Names of a record's fields. -/
def recordNames : List JsString :=
  ["pn","lid","registration_id","noise_key","identity_key","signed_pre_key","signed_pre_key_id",
    "signed_pre_key_signature","adv_secret_key","account","push_name","app_version_primary","app_version_secondary",
    "app_version_tertiary","app_version_last_fetched_ms","edge_routing_info","props_hash","next_pre_key_id"].map ofString

theorem recordNames_named : recordNames.Nodup ∧ named recordNames = true := by
  decide +kernel

theorem Contents.Valid.lid_clean (h : contents.Valid) : Clean contents.native.lid := by
  unfold Contents.native
  cases hlid : contents.lid with
  | none => exact .null
  | some lid => exact nativeJid_clean (h.lid lid hlid)

theorem Contents.routing_clean (contents : Contents) : Clean contents.native.edge_routing_info := by
  unfold Contents.native
  cases contents.routingInfo with
  | none => exact .null
  | some data => exact byteNumbers_clean data

theorem Contents.hash_clean (contents : Contents) : Clean contents.native.props_hash := by
  unfold Contents.native
  cases contents.propsHash with
  | none => exact .null
  | some hash => exact .string hash

/-- The record of valid contents is read back from its bytes. -/
theorem Contents.Valid.clean (h : contents.Valid) : Clean contents.native.record := by
  have hversion : ∀ n ∈ [WA_DEFAULT_VERSION.1,WA_DEFAULT_VERSION.2.1,WA_DEFAULT_VERSION.2.2,0],Clean (counter n) := by
    intro n hn
    refine counter_clean (lt_of_le_of_lt (?_ : n ≤ 1035194821) (by norm_num))
    revert n
    decide
  simp only [List.forall_mem_cons] at hversion
  obtain ⟨hprimary,hsecondary,htertiary,hfetched,_⟩ := hversion
  refine .record ?_ recordNames_named
  simp only [List.map_cons,List.map_nil,List.forall_mem_cons,List.not_mem_nil,false_imp_iff,implies_true,and_true]
  exact ⟨nativeJid_clean h.pn,h.lid_clean,counter_clean h.registrationId,byteNumbers_clean _,byteNumbers_clean _,
    byteNumbers_clean _,counter_clean h.keyId,byteNumbers_clean _,byteNumbers_clean _,.null,.string _,hprimary,
    hsecondary,htertiary,hfetched,contents.routing_clean,contents.hash_clean,counter_clean h.nextPreKeyId⟩

/-- Counters that are written alike make the same record. -/
theorem NativeDevice.record_counters (device : NativeDevice) {registration keyId next : Value} {r k n : ℕ}
    (hregistration : toJson registration = toJson (counter r)) (hkey : toJson keyId = toJson (counter k))
    (hnext : toJson next = toJson (counter n)) :
    toJson (NativeDevice.record { device with
      registration_id := registration, signed_pre_key_id := keyId, next_pre_key_id := next }) =
    toJson (NativeDevice.record { device with
      registration_id := counter r, signed_pre_key_id := counter k, next_pre_key_id := counter n }) := by
  simp only [NativeDevice.record,toJson,toJsonMembers,hregistration,hkey,hnext]

/-- Credentials hold the contents of a record. -/
structure Held (contents : Contents) (creds : Creds Account) : Prop where
  /-- The own contact. -/
  me : ∃ name : Option JsString, name.getD [] = contents.name ∧
    creds.me = some ⟨contents.pn.1,contents.lid.map Prod.fst,name⟩
  /-- The registration id is written alike. -/
  registrationId : toJson (orElse creds.registrationId (.number .zero)) = toJson (counter contents.registrationId)
  /-- The keys of the transport. -/
  noiseKey : creds.noiseKey = some contents.noiseKey
  /-- The identity keys. -/
  identityKey : creds.signedIdentityKey = some contents.identityKey
  /-- The signed pre-key, whose id is written alike. -/
  signedPreKey : ∃ keyId, creds.signedPreKey = some ⟨contents.signedPreKey,keyId,contents.signature⟩ ∧
    toJson (orElse keyId (.number .zero)) = toJson (counter contents.keyId)
  /-- The secret of the pairing. -/
  advSecret : base64Decode creds.advSecretKey = .ok contents.advSecret
  /-- Routing information. -/
  routingInfo : creds.routingInfo = contents.routingInfo
  /-- Hash of the properties. -/
  lastPropHash : orElse creds.lastPropHash .null = (contents.propsHash.map .string).getD .null
  /-- The id of the next pre-key is written alike. -/
  nextPreKeyId : toJson (orElse creds.nextPreKeyId (.number .zero)) = toJson (counter contents.nextPreKeyId)

variable {creds : Creds Account}

theorem OwnJid.ne_nil {jid user server : JsString} {device : ℕ} (h : OwnJid jid user server device) : jid ≠ [] := by
  rw [h.text]
  exact List.append_ne_nil_of_left_ne_nil h.given _

theorem CompletePair.isAllZero {pair : KeyPair} (h : CompletePair pair) :
    isAllZero (some pair.privateKey) = false := h.privateNonzero.all

/-- The JID of a LID that may be absent. -/
theorem Contents.Valid.lid_native (h : contents.Valid) :
    legacyJidToNative (contents.lid.map Prod.fst) = contents.native.lid := by
  unfold Contents.native
  cases hlid : contents.lid with
  | none => rfl
  | some lid => exact legacyJidToNative_own (h.lid lid hlid)

/-- What credentials hold is what their record says. -/
theorem Held.read (hvalid : contents.Valid) (h : Held contents creds) :
    deviceFromCreds creds = (toJsonBytes contents.native.record).map some := by
  obtain ⟨name,hname,hme⟩ := h.me
  obtain ⟨keyId,hsigned,hkeyId⟩ := h.signedPreKey
  have hadv : creds.advSecretKey ≠ [] := by
    intro hnil
    have hlength := hvalid.secretLength
    have hdecode := h.advSecret
    rw [hnil] at hdecode
    rw [← Except.ok.inj hdecode] at hlength
    cases hlength
  have hgates : ¬(contents.pn.1 = [] ∨ DeviceCredentials.isAllZero (some contents.noiseKey.privateKey) = true ∨
      DeviceCredentials.isAllZero (some contents.identityKey.privateKey) = true) := by
    rw [hvalid.noiseKey.isAllZero,hvalid.identityKey.isAllZero]
    exact not_or.mpr ⟨hvalid.pn.ne_nil,by decide⟩
  have hrecord := contents.native.record_counters h.registrationId hkeyId h.nextPreKeyId
  obtain ⟨bytes,hbytes,_⟩ := hvalid.clean.bytes
  have hwritten : toJsonBytes (NativeDevice.record { contents.native with
      registration_id := orElse creds.registrationId (.number .zero)
      signed_pre_key_id := orElse keyId (.number .zero)
      next_pre_key_id := orElse creds.nextPreKeyId (.number .zero) }) = .ok bytes := by
    rw [← hbytes,toJsonBytes,hrecord]
    rfl
  unfold deviceFromCreds
  rw [hme,h.noiseKey,h.identityKey,hsigned,h.routingInfo,h.lastPropHash]
  dsimp only [Option.map_some]
  rw [if_neg hgates,keyPairToNumbers_pair hvalid.noiseKey,keyPairToNumbers_pair hvalid.identityKey,
    keyPairToNumbers_pair hvalid.signedPreKey,legacyJidToNative_own hvalid.pn,hvalid.lid_native,hname]
  dsimp only [bind,Except.bind]
  rw [if_neg hadv,h.advSecret]
  dsimp only [Except.map]
  change (toJsonBytes (NativeDevice.record { contents.native with
      registration_id := orElse creds.registrationId (.number .zero)
      signed_pre_key_id := orElse keyId (.number .zero)
      next_pre_key_id := orElse creds.nextPreKeyId (.number .zero) })).bind (fun bytes => .ok (some bytes)) = _
  rw [hwritten,hbytes]
  rfl

/-- Complete credentials hold the contents of a record. -/
theorem Complete.held (h : Complete creds) : ∃ contents : Contents, contents.Valid ∧ Held contents creds := by
  obtain ⟨me,hme,⟨user,server,device,hpn⟩,hlids⟩ := h.me
  obtain ⟨noiseKey,hnoiseKey,hnoise⟩ := h.noiseKey
  obtain ⟨identityKey,hidentityKey,hidentity⟩ := h.identityKey
  obtain ⟨signed,hsigned,hkeys,hkeyId,hsignature,hnonzero⟩ := h.signedPreKey
  obtain ⟨secret,hsecret,hlength,hany⟩ := h.advSecret
  obtain ⟨r,hr,hregistration⟩ := h.registrationId.value
  obtain ⟨k,hk,hid⟩ := hkeyId.value
  obtain ⟨n,hn,hnext⟩ := h.nextPreKeyId.value
  have hlid : ∃ lid : Option (JsString × JsString × JsString × ℕ), me.lid = lid.map Prod.fst ∧
      ∀ own, lid = some own → OwnJid own.1 own.2.1 own.2.2.1 own.2.2.2 := by
    cases hcase : me.lid with
    | none => exact ⟨none,rfl,fun _ hown => (nomatch hown)⟩
    | some lid =>
      obtain ⟨lidUser,lidServer,lidDevice,hown⟩ := hlids lid hcase
      exact ⟨some (lid,lidUser,lidServer,lidDevice),rfl,fun own heq => Option.some.inj heq ▸ hown⟩
  have hhash : ∃ hash : Option JsString, orElse creds.lastPropHash .null = (hash.map .string).getD .null := by
    obtain hnone | ⟨hash,hsome⟩ := h.lastPropHash
    · exact ⟨none,by rw [hnone]; rfl⟩
    · exact ⟨some hash,by rw [hsome]; rfl⟩
  obtain ⟨lid,hlidText,hlidOwn⟩ := hlid
  obtain ⟨hash,hhashValue⟩ := hhash
  let contents : Contents := ⟨(me.id,user,server,device),lid,r,noiseKey,identityKey,signed.keyPair,k,signed.signature,
    secret,me.name.getD [],creds.routingInfo,hash,n⟩
  have hvalid : contents.Valid := ⟨hpn,hlidOwn,hr,hnoise,hidentity,hkeys,hk,hsignature,hnonzero,hlength,hany,hn⟩
  have hcontact : creds.me = some ⟨me.id,lid.map Prod.fst,me.name⟩ := by
    rw [hme,← hlidText]
  exact ⟨contents,hvalid,⟨me.name,rfl,hcontact⟩,hregistration,hnoiseKey,hidentityKey,⟨signed.keyId,hsigned,hid⟩,
    hsecret,rfl,hhashValue,hnext⟩

/-- What is checked of the record of contents. -/
def Contents.prepared (contents : Contents) : PreparedDevice where
  native := contents.native
  pn := some contents.pn.1
  lid := contents.lid.map Prod.fst
  registrationId := some (.ofRatio false contents.registrationId 1)
  nextPreKeyId := some (.ofRatio false contents.nextPreKeyId 1)
  noiseKey := some contents.noiseKey
  identityKey := some contents.identityKey
  signedPreKey := some contents.signedPreKey
  signature := some contents.signature
  advSecret := some contents.advSecret
  routingInfo := some contents.routingInfo

/-- Reading the fields of a record gives those it was written with. -/
theorem NativeDevice.ofRecord_record (device : NativeDevice) :
    NativeDevice.ofRecord device.record = .ok { device with platform := .undefined } := rfl

theorem Contents.Valid.lid_text (h : contents.Valid) :
    nativeJidToString host contents.native.lid = .ok (contents.lid.map Prod.fst) := by
  unfold Contents.native
  cases hlid : contents.lid with
  | none => rfl
  | some lid => exact nativeJidToString_own (h.lid lid hlid)

theorem Contents.routing_read (contents : Contents) :
    optionalRouting contents.native.edge_routing_info = .ok (some contents.routingInfo) := by
  unfold Contents.native
  cases contents.routingInfo with
  | none => rfl
  | some data =>
    change (requireByteArray (.array (byteNumbers data)) "routing info").map (fun bytes => some (some bytes)) = _
    rw [requireByteArray_numbers]
    rfl

/-- The record of valid contents passes the checks. -/
theorem Contents.Valid.prepare (h : contents.Valid) {payload : Bytes}
    (hpayload : fromJsonBytes payload = .ok contents.native.record) :
    prepareNativeDevice host payload = .ok contents.prepared := by
  have hpn : nativeJidToString host contents.native.pn = .ok (some contents.pn.1) := nativeJidToString_own h.pn
  have hregistration : optionalCounter contents.native.registration_id "device registration id" = _ :=
    optionalCounter_counter h.registrationId _
  have hnext : optionalCounter contents.native.next_pre_key_id "next pre-key id" = _ :=
    optionalCounter_counter h.nextPreKeyId _
  have hnoise : numbersToKeyPair contents.native.noise_key "noise key pair" = _ := numbersToKeyPair_numbers h.noiseKey _
  have hidentity : numbersToKeyPair contents.native.identity_key "identity key pair" = _ :=
    numbersToKeyPair_numbers h.identityKey _
  have hsigned : numbersToKeyPair contents.native.signed_pre_key "signed pre-key pair" = _ :=
    numbersToKeyPair_numbers h.signedPreKey _
  have hsignature : optionalBytes contents.native.signed_pre_key_signature 64 "signed pre-key signature"
      "signed pre-key signature must contain 64 bytes" = _ := optionalBytes_numbers h.signatureLength _ _
  have hsecret : optionalBytes contents.native.adv_secret_key 32 "adv secret key" "adv secret key must contain 32 bytes" =
      _ := optionalBytes_numbers h.secretLength _ _
  unfold prepareNativeDevice
  rw [hpayload]
  dsimp only [bind,Except.bind]
  rw [contents.native.ofRecord_record]
  dsimp only
  rw [hpn,h.lid_text,hregistration,hnext,hnoise,hidentity,hsigned,hsignature,hsecret,contents.routing_read]
  rfl

/-- Credentials without an own contact hold the contents that are applied to them. -/
theorem Contents.Valid.apply (h : contents.Valid) (hme : creds.me = none) :
    Held contents (contents.prepared.apply creds) := by
  have hcontact : contents.prepared.me creds.me = some ⟨contents.pn.1,contents.lid.map Prod.fst,some contents.name⟩ := by
    rw [hme]
    unfold PreparedDevice.me Contents.prepared
    cases contents.lid with
    | none => rfl
    | some lid => rfl
  have hcounter : ∀ n, toJson (orElse (counter n) (.number .zero)) = toJson (counter n) := fun _ => rfl
  have hsigned : contents.prepared.signed = some ⟨contents.signedPreKey,counter contents.keyId,contents.signature⟩ := by
    change (if contents.signature.any (· != 0) then some (SignedKeyPair.mk contents.signedPreKey
      (orElse (counter contents.keyId) (.number .zero)) contents.signature) else none) = _
    rw [if_pos h.signatureNonzero.any]
    rfl
  have hsecret : (contents.prepared.apply creds).advSecretKey = base64Encode contents.advSecret := by
    change (if contents.advSecret.any (· != 0) then base64Encode contents.advSecret else creds.advSecretKey) = _
    rw [if_pos h.secretNonzero.any]
  have hhash : orElse (contents.prepared.apply creds).lastPropHash .null =
      (contents.propsHash.map .string).getD .null := by
    unfold PreparedDevice.apply Contents.prepared Contents.native
    cases contents.propsHash with
    | none => rfl
    | some hash => rfl
  refine ⟨⟨some contents.name,rfl,hcontact⟩,hcounter _,rfl,rfl,⟨_,?_,hcounter contents.keyId⟩,?_,rfl,hhash,hcounter _⟩
  · change contents.prepared.signed.or creds.signedPreKey = _
    rw [hsigned]
    rfl
  · rw [hsecret,base64Decode_base64Encode]

/-- The device record of complete credentials is a fixpoint. -/
theorem Complete.fixpoint (h : Complete creds) {fresh : Creds Account} (hme : fresh.me = none) :
    ∃ record apply, readProjection host .device creds = .ok (some record) ∧
      prepareProjection host .device record = .ok apply ∧
      readProjection host .device (apply fresh) = .ok (some record) := by
  obtain ⟨contents,hvalid,hheld⟩ := h.held
  obtain ⟨record,hrecord,hparsed⟩ := hvalid.clean.bytes
  refine ⟨record,contents.prepared.apply,?_,?_,?_⟩
  · change deviceFromCreds creds = _
    rw [hheld.read hvalid,hrecord]
    rfl
  · change (prepareNativeDevice host record).map PreparedDevice.apply = _
    rw [hvalid.prepare hparsed]
    rfl
  · change deviceFromCreds (contents.prepared.apply fresh) = _
    rw [(hvalid.apply hme).read hvalid,hrecord]
    rfl

end Projection

section Batches

variable {Account : Type} {host : DeviceHost Account} {digest : Digest}

/-- Every item of a list has a result when the list has. -/
theorem mapM_accepted {α β : Type} {f : α → Except StoreError β} {items : List α} {results : List β}
    (h : items.mapM f = .ok results) {item : α} (hitem : item ∈ items) : ∃ result, f item = .ok result := by
  have hall := mapM_ok h
  clear h
  induction hall with
  | nil => cases hitem
  | cons hfirst _ ih =>
    rcases List.mem_cons.mp hitem with rfl | hrest
    · exact ⟨_,hfirst⟩
    · exact ih hrest

/-- A batch with a record that is rejected is rejected as a whole. -/
theorem writeMany_rejected {entries : List (JsString × Bytes)} {entry : JsString × Bytes} (hentry : entry ∈ entries)
    {error : StoreError} (hrejected : prepareRecord host entry = .error error)
    (saveCreds persist : Except StoreError Unit) (store : DeviceStore Account) :
    ∃ failure, writeMany host digest saveCreds persist entries store = (.error failure,store) := by
  unfold writeMany
  rw [if_neg (List.ne_nil_of_mem hentry)]
  cases uniqueKeys (entries.map Prod.fst) "device setMany" with
  | error failure => exact ⟨failure,rfl⟩
  | ok _ =>
    unfold writeDevice
    cases hprepared : entries.mapM (prepareRecord host) with
    | error failure => exact ⟨failure,rfl⟩
    | ok prepared =>
      obtain ⟨record,hrecord⟩ := mapM_accepted hprepared hentry
      rw [hrecord] at hrejected
      cases hrejected

/-- Reading the device record of complete credentials, applying it to credentials without an own
contact and reading theirs gives the same bytes; and a batch with a record that is rejected leaves
the credentials, and what was saved and persisted, as they are. -/
theorem device_projection (host : DeviceHost Account) (digest : Digest) :
    (∀ creds fresh : Creds Account, Complete creds → fresh.me = none →
      ∃ record apply, readProjection host .device creds = .ok (some record) ∧
        prepareProjection host .device record = .ok apply ∧
        readProjection host .device (apply fresh) = .ok (some record)) ∧
    ∀ (entries : List (JsString × Bytes)) (saveCreds persist : Except StoreError Unit) (store : DeviceStore Account),
      (∃ entry ∈ entries, ∃ error, prepareRecord host entry = .error error) →
      ∃ failure, writeMany host digest saveCreds persist entries store = (.error failure,store) := by
  refine ⟨fun creds fresh hcomplete hme => hcomplete.fixpoint hme,?_⟩
  rintro entries saveCreds persist store ⟨entry,hentry,error,hrejected⟩
  exact writeMany_rejected hentry hrejected saveCreds persist store

/-- A host whose signed identities are their bytes. -/
def plainHost : DeviceHost Bytes where
  textOf := fun _ => .error (.typeError "Cannot convert object to primitive value")
  encodeAccount := id
  decodeAccount := .ok

/-- A key pair without a zero. -/
def onesPair : KeyPair := ⟨List.replicate 32 1,List.replicate 32 2⟩

/-- Credentials of a device that was paired. -/
def pairedCreds : Creds Bytes where
  me := some ⟨ofString "1:2@s.whatsapp.net",some (ofString "3@lid"),none⟩
  registered := true
  registrationId := counter 7
  noiseKey := some onesPair
  signedIdentityKey := some onesPair
  signedPreKey := some ⟨onesPair,counter 1,List.replicate 64 3⟩
  advSecretKey := base64Encode (List.replicate 32 4)
  nextPreKeyId := counter 5
  firstUnuploadedPreKeyId := counter 5
  lastPropHash := .undefined
  platform := none
  routingInfo := none
  account := none

theorem onesPair_complete : CompletePair onesPair where
  privateLength := rfl
  publicLength := rfl
  privateNonzero := ⟨1,by decide,by decide⟩
  publicNonzero := ⟨2,by decide,by decide⟩

theorem isCounter_counter {n : ℕ} (h : n < 2^53) : IsCounter (counter n) :=
  ⟨_,rfl,isSafeUnsigned_ofRatio h⟩

theorem pairedCreds_complete : Complete pairedCreds where
  me := ⟨_,rfl,⟨ofString "1",ofString "s.whatsapp.net",2,
    ⟨by decide,by decide,by decide,by decide,by decide,by decide,by decide⟩⟩,fun lid hlid =>
      ⟨ofString "3",ofString "lid",0,(Option.some.inj hlid : ofString "3@lid" = lid) ▸
        ⟨by decide,by decide,by decide,by decide,by decide,by decide,by decide⟩⟩⟩
  noiseKey := ⟨_,rfl,onesPair_complete⟩
  identityKey := ⟨_,rfl,onesPair_complete⟩
  signedPreKey := ⟨_,rfl,onesPair_complete,isCounter_counter (by decide),rfl,3,by decide,by decide⟩
  advSecret := ⟨_,base64Decode_base64Encode _,rfl,4,by decide,by decide⟩
  registrationId := isCounter_counter (by decide)
  nextPreKeyId := isCounter_counter (by decide)
  lastPropHash := .inl rfl

/-- Paired credentials give their record to credentials without an own contact, and a record of
another name is rejected with its batch. -/
theorem device_projection_paired :
    (∃ record apply, readProjection plainHost .device pairedCreds = .ok (some record) ∧
      prepareProjection plainHost .device record = .ok apply ∧
      readProjection plainHost .device (apply { pairedCreds with me := none }) = .ok (some record)) ∧
    ∃ failure, writeMany plainHost ⟨fun _ => List.replicate 32 0,fun _ => rfl⟩ (.ok ()) (.ok ()) [(ofString "device-list",[])] ⟨pairedCreds,[],[]⟩ =
      (.error failure,⟨pairedCreds,[],[]⟩) := by
  obtain ⟨hfixpoint,hbatch⟩ := device_projection plainHost ⟨fun _ => List.replicate 32 0,fun _ => rfl⟩
  have hrejected : ∃ error, prepareRecord plainHost (ofString "device-list",[]) = .error error := ⟨_,rfl⟩
  exact ⟨hfixpoint pairedCreds _ pairedCreds_complete rfl,
    hbatch _ (.ok ()) (.ok ()) _ ⟨_,List.mem_singleton_self _,hrejected⟩⟩

end Batches

end Baileyrs.DeviceCredentials
