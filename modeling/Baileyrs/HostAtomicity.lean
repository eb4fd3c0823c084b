import Baileyrs.GuardedUpdates
import Baileyrs.HostHydration

/-!
# A record that is rejected may be assigned in part

The host checks the own JIDs of a persisted record before it assigns anything. The other
fields are checked one after the other, and each group is assigned before the next is
checked, so a record that is rejected leaves the credentials as they were only if they
held the groups before the one that is rejected.
-/

namespace Baileyrs.HostHydration

open JsString AtomicStore LegacyValues LegacyProjection RuntimeBytes DeviceCredentials GuardedUpdates

section Checks

variable {Account : Type} (host : DeviceHost Account) (record : Value)

/-- A field that is present is not refused. -/
def fieldCheck (name : String) (refused : Bool) (failure : StoreError) : Except StoreError Unit := do
  if (← hasField host record name) && refused then throw failure

/-- Check of the registration id. -/
def registrationCheck : Except StoreError Unit :=
  fieldCheck host record "registration_id" ((safeUnsigned (optionalMember record "registration_id")).all exceedsRegistration)
    (.error "invalid persisted registration id")

/-- Check of the keys. -/
def keysCheck : Except StoreError Unit := do
  fieldCheck host record "noise_key" (keyPair (optionalMember record "noise_key")).isNone
    (.error "persisted auth record contains an invalid noise key")
  if (← hasSigningRecord host record signingFields) && (signingBundle record).isNone then
    throw (.error "persisted auth record contains an incomplete signing bundle")

/-- Check of the secret of the pairing. -/
def secretCheck : Except StoreError Unit :=
  fieldCheck host record "adv_secret_key" ((asBytes (optionalMember record "adv_secret_key")).all (·.length != 32))
    (.error "persisted auth record contains an invalid adv secret")

/-- Check of the id of the next pre-key. -/
def counterCheck : Except StoreError Unit :=
  fieldCheck host record "next_pre_key_id" (safeUnsigned (optionalMember record "next_pre_key_id")).isNone
    (.error "invalid persisted pre-key counter")

/-- A value is `null`. -/
def isNull : Value → Bool
  | .null => true
  | _ => false

/-- Check of the routing information. -/
def routingCheck : Except StoreError Unit :=
  fieldCheck host record "edge_routing_info" (!isNull (optionalMember record "edge_routing_info") &&
    (asBytes (optionalMember record "edge_routing_info")).isNone)
    (.error "persisted auth record contains invalid routing info")

/-- Check of the signed identity. -/
def accountCheck (accountPayload : Option Bytes) : Except StoreError Unit :=
  match accountPayload with
  | some accountPayload => (host.decodeAccount accountPayload).map fun _ => ()
  | none => .ok ()

end Checks

section Values

variable {Account : Type} (host : DeviceHost Account) (record : Value)

/-- The signing bundle of a record that has a field of it. -/
def recordBundle : Option (KeyPair × SignedKeyPair) :=
  match hasSigningRecord host record signingFields with
  | .ok true => signingBundle record
  | _ => none

/-- Text of a JID that can be written. -/
def jidText (jid : PersistedJid) : Option JsString :=
  match jid.encode host with
  | .ok text => some text
  | .error _ => none

/-- The own contact of a record. -/
def recordContact (pn lid : Option PersistedJid) : Option Me :=
  match pn.bind (jidText host) with
  | some id => some ⟨id,lid.bind (jidText host),textValue (optionalMember record "push_name")⟩
  | none => (textValue (optionalMember record "push_name")).map fun name => ⟨[],none,some name⟩

/-- A contact has a JID. -/
def isKnown (me : Option Me) : Bool := me.any (·.id != [])

/-- Routing information of a record, `none` of which is given as `null`. -/
def recordRouting : Option (Option Bytes) :=
  if isNull (optionalMember record "edge_routing_info") then some none
  else (asBytes (optionalMember record "edge_routing_info")).map some

/-- Signed identity of its bytes. -/
def recordAccount (accountPayload : Option Bytes) : Option Account :=
  accountPayload.bind fun accountPayload =>
    match host.decodeAccount accountPayload with
    | .ok account => some account
    | .error _ => none

end Values

section Stages

variable {Account : Type}

theorem getD_eq {α : Type} {value : Option α} {held : α} : value.getD held = held ↔ ∀ x, value = some x → held = x := by
  cases value with
  | none => exact ⟨fun _ _ h => (nomatch h),fun _ => rfl⟩
  | some x => exact ⟨fun h _ hx => (h.symm.trans (Option.some.inj hx)),fun h => (h x rfl).symm⟩

theorem or_eq {α : Type} {value held : Option α} : value.or held = held ↔ ∀ x, value = some x → held = some x := by
  cases value with
  | none => exact ⟨fun _ _ h => (nomatch h),fun _ => rfl⟩
  | some x => exact ⟨fun h _ hx => h.symm.trans hx,fun h => (h x rfl).symm⟩

variable (host : DeviceHost Account) (record : Value)

/-- The registration id. -/
def registrationStage : Stage (Creds Account) StoreError where
  check := registrationCheck host record
  assign := fun creds => { creds with
    registrationId := ((safeUnsigned (optionalMember record "registration_id")).map .number).getD creds.registrationId }
  Holds := fun creds => ∀ x, (safeUnsigned (optionalMember record "registration_id")).map .number = some x →
    creds.registrationId = x
  assign_eq_self := fun creds =>
    ⟨fun h => getD_eq.mp (congrArg Creds.registrationId h),fun h => by rw [getD_eq.mpr h]⟩

/-- The keys. -/
def keysStage : Stage (Creds Account) StoreError where
  check := keysCheck host record
  assign := fun creds => { creds with
    noiseKey := (keyPair (optionalMember record "noise_key")).or creds.noiseKey
    signedIdentityKey := ((recordBundle host record).map Prod.fst).or creds.signedIdentityKey
    signedPreKey := ((recordBundle host record).map Prod.snd).or creds.signedPreKey }
  Holds := fun creds =>
    (∀ pair, keyPair (optionalMember record "noise_key") = some pair → creds.noiseKey = some pair) ∧
    (∀ pair, (recordBundle host record).map Prod.fst = some pair → creds.signedIdentityKey = some pair) ∧
    ∀ signed, (recordBundle host record).map Prod.snd = some signed → creds.signedPreKey = some signed
  assign_eq_self := fun creds =>
    ⟨fun h => ⟨or_eq.mp (congrArg Creds.noiseKey h),or_eq.mp (congrArg Creds.signedIdentityKey h),
      or_eq.mp (congrArg Creds.signedPreKey h)⟩,
    fun h => by rw [or_eq.mpr h.1,or_eq.mpr h.2.1,or_eq.mpr h.2.2]⟩

/-- The secret of the pairing. -/
def secretStage : Stage (Creds Account) StoreError where
  check := secretCheck host record
  assign := fun creds => { creds with
    advSecretKey := ((asBytes (optionalMember record "adv_secret_key")).map base64Encode).getD creds.advSecretKey }
  Holds := fun creds => ∀ secret, (asBytes (optionalMember record "adv_secret_key")).map base64Encode = some secret →
    creds.advSecretKey = secret
  assign_eq_self := fun creds =>
    ⟨fun h => getD_eq.mp (congrArg Creds.advSecretKey h),fun h => by rw [getD_eq.mpr h]⟩

/-- The id of the next pre-key. -/
def counterStage : Stage (Creds Account) StoreError where
  check := counterCheck host record
  assign := fun creds =>
    let next := (safeUnsigned (optionalMember record "next_pre_key_id")).map Value.number
    { creds with
      nextPreKeyId := next.getD creds.nextPreKeyId
      firstUnuploadedPreKeyId := next.getD creds.firstUnuploadedPreKeyId }
  Holds := fun creds => ∀ x, (safeUnsigned (optionalMember record "next_pre_key_id")).map .number = some x →
    creds.nextPreKeyId = x ∧ creds.firstUnuploadedPreKeyId = x
  assign_eq_self := fun creds =>
    ⟨fun h x hx => ⟨getD_eq.mp (congrArg Creds.nextPreKeyId h) x hx,
      getD_eq.mp (congrArg Creds.firstUnuploadedPreKeyId h) x hx⟩,
    fun h => by
      dsimp only
      rw [getD_eq.mpr fun x hx => (h x hx).1,getD_eq.mpr fun x hx => (h x hx).2]⟩

/-- The hash of the properties. -/
def hashStage : Stage (Creds Account) StoreError where
  check := .ok ()
  assign := fun creds => { creds with
    lastPropHash := ((textValue (optionalMember record "props_hash")).map .string).getD creds.lastPropHash }
  Holds := fun creds => ∀ hash, (textValue (optionalMember record "props_hash")).map .string = some hash →
    creds.lastPropHash = hash
  assign_eq_self := fun creds =>
    ⟨fun h => getD_eq.mp (congrArg Creds.lastPropHash h),fun h => by rw [getD_eq.mpr h]⟩

/-- The own contact, and whether the device was paired. -/
def contactStage (pn lid : Option PersistedJid) : Stage (Creds Account) StoreError where
  check := .ok ()
  assign := fun creds =>
    let me := (recordContact host record pn lid).or creds.me
    { creds with me, registered := if isKnown me = true then true else creds.registered }
  Holds := fun creds => (∀ me, recordContact host record pn lid = some me → creds.me = some me) ∧
    (isKnown creds.me = true → creds.registered = true)
  assign_eq_self := fun creds => by
    constructor
    · intro h
      have hme : (recordContact host record pn lid).or creds.me = creds.me := congrArg Creds.me h
      have hregistered : (if isKnown ((recordContact host record pn lid).or creds.me) = true then true
        else creds.registered) = creds.registered := congrArg Creds.registered h
      refine ⟨or_eq.mp hme,fun hknown => ?_⟩
      rw [hme,if_pos hknown] at hregistered
      exact hregistered.symm
    · rintro ⟨hme,hregistered⟩
      have hsame : (if isKnown creds.me = true then true else creds.registered) = creds.registered := by
        split
        · rename_i hknown
          exact (hregistered hknown).symm
        · rfl
      dsimp only
      rw [or_eq.mpr hme,hsame]

/-- The platform. -/
def platformStage : Stage (Creds Account) StoreError where
  check := .ok ()
  assign := fun creds => { creds with platform := (textValue (optionalMember record "platform")).or creds.platform }
  Holds := fun creds => ∀ platform, textValue (optionalMember record "platform") = some platform →
    creds.platform = some platform
  assign_eq_self := fun creds =>
    ⟨fun h => or_eq.mp (congrArg Creds.platform h),fun h => by rw [or_eq.mpr h]⟩

/-- Where the server routes the connection. -/
def routingStage : Stage (Creds Account) StoreError where
  check := routingCheck host record
  assign := fun creds => { creds with routingInfo := (recordRouting record).getD creds.routingInfo }
  Holds := fun creds => ∀ routing, recordRouting record = some routing → creds.routingInfo = routing
  assign_eq_self := fun creds =>
    ⟨fun h => getD_eq.mp (congrArg Creds.routingInfo h),fun h => by rw [getD_eq.mpr h]⟩

/-- The signed identity. -/
def accountStage (accountPayload : Option Bytes) : Stage (Creds Account) StoreError where
  check := accountCheck host accountPayload
  assign := fun creds => { creds with account := (recordAccount host accountPayload).or creds.account }
  Holds := fun creds => ∀ account, recordAccount host accountPayload = some account → creds.account = some account
  assign_eq_self := fun creds =>
    ⟨fun h => or_eq.mp (congrArg Creds.account h),fun h => by rw [or_eq.mpr h]⟩

/-- What is assigned of a record whose own JIDs are read, in order. -/
def recordStages (pn lid : Option PersistedJid) (accountPayload : Option Bytes) : List (Stage (Creds Account) StoreError) :=
  [registrationStage host record,keysStage host record,secretStage host record,counterStage host record,hashStage record,
    contactStage host record pn lid,platformStage record,routingStage host record,accountStage host accountPayload]

/-- Every stage assigns fields of its own. -/
theorem recordStages_separate (pn lid : Option PersistedJid) (accountPayload : Option Bytes) :
    Separate (recordStages host record pn lid accountPayload) := by
  refine ⟨⟨_,Creds.registrationId,fun s h => congrArg (fun v => ({ s with registrationId := v } : Creds Account)) h,?_⟩,
    ⟨_,fun creds => (creds.noiseKey,creds.signedIdentityKey,creds.signedPreKey),fun s h =>
      congrArg (fun v : _ × _ × _ => ({ s with
        noiseKey := v.1, signedIdentityKey := v.2.1, signedPreKey := v.2.2 } : Creds Account)) h,?_⟩,
    ⟨_,Creds.advSecretKey,fun s h => congrArg (fun v => ({ s with advSecretKey := v } : Creds Account)) h,?_⟩,
    ⟨_,fun creds => (creds.nextPreKeyId,creds.firstUnuploadedPreKeyId),fun s h =>
      congrArg (fun v : _ × _ => ({ s with
        nextPreKeyId := v.1, firstUnuploadedPreKeyId := v.2 } : Creds Account)) h,?_⟩,
    ⟨_,Creds.lastPropHash,fun s h => congrArg (fun v => ({ s with lastPropHash := v } : Creds Account)) h,?_⟩,
    ⟨_,fun creds => (creds.me,creds.registered),fun s h =>
      congrArg (fun v : _ × _ => ({ s with me := v.1, registered := v.2 } : Creds Account)) h,?_⟩,
    ⟨_,Creds.platform,fun s h => congrArg (fun v => ({ s with platform := v } : Creds Account)) h,?_⟩,
    ⟨_,Creds.routingInfo,fun s h => congrArg (fun v => ({ s with routingInfo := v } : Creds Account)) h,?_⟩,
    ⟨_,Creds.account,fun s h => congrArg (fun v => ({ s with account := v } : Creds Account)) h,?_⟩,trivial⟩
  all_goals
    simp only [List.forall_mem_cons,List.not_mem_nil,false_imp_iff,implies_true,and_true]
  · exact ⟨fun _ => rfl,fun _ => rfl,fun _ => rfl,fun _ => rfl,fun _ => rfl,fun _ => rfl,fun _ => rfl,fun _ => rfl⟩
  · exact ⟨fun _ => rfl,fun _ => rfl,fun _ => rfl,fun _ => rfl,fun _ => rfl,fun _ => rfl,fun _ => rfl⟩
  · exact ⟨fun _ => rfl,fun _ => rfl,fun _ => rfl,fun _ => rfl,fun _ => rfl,fun _ => rfl⟩
  · exact ⟨fun _ => rfl,fun _ => rfl,fun _ => rfl,fun _ => rfl,fun _ => rfl⟩
  · exact ⟨fun _ => rfl,fun _ => rfl,fun _ => rfl,fun _ => rfl⟩
  · exact ⟨fun _ => rfl,fun _ => rfl,fun _ => rfl⟩
  · exact ⟨fun _ => rfl,fun _ => rfl⟩
  · exact fun _ => rfl

/-- A step that is a stage. -/
def Follows (step : Hydration Account Unit) (stage : Stage (Creds Account) StoreError) : Prop :=
  ∀ creds, step.on creds = match stage.check with
    | .error error => (.error error,creds)
    | .ok _ => (.ok (),stage.assign creds)

/-- A step that is a stage is followed by the rest. -/
theorem Follows.cons {step rest : Hydration Account Unit} {stage : Stage (Creds Account) StoreError}
    {stages : List (Stage (Creds Account) StoreError)} (hstep : Follows step stage)
    (hrest : ∀ creds, rest.on creds = GuardedUpdates.run stages creds) (creds : Creds Account) :
    (step >>= fun _ => rest).on creds = GuardedUpdates.run (stage::stages) creds := by
  have hfirst := hstep creds
  rw [GuardedUpdates.run]
  cases hcheck : stage.check with
  | error error =>
    rw [hcheck] at hfirst
    have hrun : step.run.run creds = (.error error,creds) := hfirst
    unfold Hydration.on
    rw [ExceptT.run_bind,StateT.run_bind,hrun]
    rfl
  | ok value =>
    rw [hcheck] at hfirst
    rw [on_bind hfirst]
    exact hrest _

/-- A step that is a stage is a run of it. -/
theorem Follows.last {step : Hydration Account Unit} {stage : Stage (Creds Account) StoreError} (h : Follows step stage)
    (creds : Creds Account) : step.on creds = GuardedUpdates.run [stage] creds := by
  rw [h creds,GuardedUpdates.run]
  cases stage.check with
  | error error => rfl
  | ok value => rfl

theorem registration_follows : Follows (hydrateRegistration host record) (registrationStage host record) := by
  intro creds
  unfold hydrateRegistration registrationStage registrationCheck fieldCheck
  dsimp only
  cases hasField host record "registration_id" with
  | error error => rfl
  | ok present =>
    cases safeUnsigned (optionalMember record "registration_id") with
    | none => cases present <;> rfl
    | some x =>
      rw [Option.all_some]
      cases present <;> cases exceedsRegistration x <;> rfl

theorem keys_follows : Follows (hydrateKeys host record) (keysStage host record) := by
  intro creds
  unfold hydrateKeys keysStage keysCheck fieldCheck recordBundle
  dsimp only
  cases hasField host record "noise_key" with
  | error error => rfl
  | ok present =>
    cases hasSigningRecord host record signingFields with
    | error error => cases present <;> cases keyPair (optionalMember record "noise_key") <;> rfl
    | ok signing =>
      cases present <;> cases keyPair (optionalMember record "noise_key") <;> cases signing <;>
        cases signingBundle record <;> rfl

theorem secret_follows : Follows (hydrateSecret host record) (secretStage host record) := by
  intro creds
  unfold hydrateSecret secretStage secretCheck fieldCheck
  dsimp only
  cases hasField host record "adv_secret_key" with
  | error error => rfl
  | ok present =>
    cases asBytes (optionalMember record "adv_secret_key") with
    | none => cases present <;> rfl
    | some secret =>
      rw [Option.all_some]
      cases present <;> cases secret.length != 32 <;> rfl

theorem counter_follows : Follows (hydrateCounter host record) (counterStage host record) := by
  intro creds
  unfold hydrateCounter counterStage counterCheck fieldCheck
  dsimp only
  cases hasField host record "next_pre_key_id" with
  | error error => rfl
  | ok present => cases present <;> cases safeUnsigned (optionalMember record "next_pre_key_id") <;> rfl

theorem hash_follows : Follows (hydrateHash record) (hashStage record : Stage (Creds Account) StoreError) := by
  intro creds
  unfold hydrateHash hashStage
  dsimp only
  cases optionalMember record "props_hash" <;> rfl

theorem platform_follows :
    Follows (hydratePlatform record) (platformStage record : Stage (Creds Account) StoreError) := by
  intro creds
  unfold hydratePlatform platformStage
  dsimp only
  cases optionalMember record "platform" <;> rfl

theorem routing_follows : Follows (hydrateRouting host record) (routingStage host record) := by
  intro creds
  unfold hydrateRouting routingStage routingCheck fieldCheck recordRouting
  dsimp only
  cases hasField host record "edge_routing_info" with
  | error error => rfl
  | ok present =>
    cases hvalue : optionalMember record "edge_routing_info" with
    | array items => cases present <;> cases hbytes : asBytes (.array items) <;> rfl
    | _ => cases present <;> rfl

theorem account_follows (accountPayload : Option Bytes) :
    Follows (hydrateAccount host accountPayload) (accountStage host accountPayload) := by
  intro creds
  unfold hydrateAccount accountStage accountCheck recordAccount
  dsimp only
  cases accountPayload with
  | none => rfl
  | some payload =>
    dsimp only [Option.bind_some]
    cases host.decodeAccount payload <;> rfl

/-- A JID that is read can be written. -/
theorem parsePersistedJid_encodes {field : String} {domains : List JsString} {found : Option PersistedJid}
    (h : parsePersistedJid record field domains = .ok found) {jid : PersistedJid} (hjid : found = some jid) :
    ∃ text, jid.encode host = .ok text := by
  subst hjid
  unfold parsePersistedJid at h
  obtain ⟨value,_,h⟩ := bind_ok h
  split at h
  · cases h
  · split at h
    · rename_i user server huser hserver
      split at h
      · cases h
      · rename_i hvalid
        cases h
        rw [not_or,not_or] at hvalid
        have hdevice : isDevice (optionalMember value "device") = true := Bool.eq_true_of_not_eq_false hvalid.2.2
        obtain ⟨text,htext,_⟩ : ∃ text, (PersistedJid.mk user server (optionalMember value "device")).encode host =
            .ok text ∧ text ≠ [] := PersistedJid.encode_ok hvalid.1 hdevice
        exact ⟨text,htext⟩
    · cases h

/-- Note that a device with a known contact was paired. -/
def notePaired : Hydration Account Unit :=
  modify fun creds => if creds.me.any (·.id != []) then { creds with registered := true } else creds

theorem notePaired_on (creds : Creds Account) :
    notePaired.on creds = (.ok (),{ creds with registered := if isKnown creds.me = true then true else creds.registered }) := by
  change (Except.ok (),if creds.me.any (·.id != []) = true then { creds with registered := true } else creds) = _
  unfold isKnown
  split
  · rfl
  · rfl

/-- The own contact of a record is assigned before it is noted whether the device was paired. -/
theorem hydrateContact_on {pn lid : Option PersistedJid}
    (hpn : ∀ jid, pn = some jid → ∃ text, jid.encode host = .ok text)
    (hlid : ∀ jid, lid = some jid → ∃ text, jid.encode host = .ok text) (creds : Creds Account) :
    (hydrateContact host record pn lid).on creds =
      notePaired.on { creds with me := (recordContact host record pn lid).or creds.me } := by
  cases pn with
  | none =>
    unfold hydrateContact recordContact
    cases optionalMember record "push_name" <;> rfl
  | some pn =>
    obtain ⟨id,hid⟩ := hpn pn rfl
    have hidText : (some pn).bind (jidText host) = some id := by
      rw [Option.bind_some,jidText,hid]
    cases lid with
    | none =>
      have hcontact : recordContact host record (some pn) none =
          some ⟨id,none,textValue (optionalMember record "push_name")⟩ := by
        rw [recordContact,hidText]
        rfl
      rw [hcontact]
      unfold hydrateContact
      dsimp only
      rw [hid]
      rfl
    | some lid =>
      obtain ⟨text,htext⟩ := hlid lid rfl
      have hlidText : (some lid).bind (jidText host) = some text := by
        rw [Option.bind_some,jidText,htext]
      have hcontact : recordContact host record (some pn) (some lid) =
          some ⟨id,some text,textValue (optionalMember record "push_name")⟩ := by
        rw [recordContact,hidText,hlidText]
      rw [hcontact]
      unfold hydrateContact
      dsimp only
      rw [hid,htext]
      rfl

theorem contact_follows {pn lid : Option PersistedJid} (hpn : ∀ jid, pn = some jid → ∃ text, jid.encode host = .ok text)
    (hlid : ∀ jid, lid = some jid → ∃ text, jid.encode host = .ok text) :
    Follows (hydrateContact host record pn lid) (contactStage host record pn lid) := by
  intro creds
  rw [hydrateContact_on host record hpn hlid,notePaired_on]
  rfl

/-- A record whose own JIDs are read is assigned stage by stage. -/
theorem hydrateHostAuthCreds_stages {payload : Bytes} {record : Value} {pn lid : Option PersistedJid}
    (hpayload : fromJsonBytes payload = .ok record) (hpn : parsePersistedJid record "pn" pnDomains = .ok pn)
    (hlid : parsePersistedJid record "lid" lidDomains = .ok lid) (accountPayload : Option Bytes) (creds : Creds Account) :
    (hydrateHostAuthCreds host (some payload) accountPayload).on creds =
      GuardedUpdates.run (recordStages host record pn lid accountPayload) creds := by
  have hrecord : parseRecord payload = .ok record := by
    rw [parseRecord,hpayload]
  have hcontact : Follows (hydrateContact host record pn lid) (contactStage host record pn lid) :=
    contact_follows host record (fun _ hjid => parsePersistedJid_encodes host record hpn hjid)
      fun _ hjid => parsePersistedJid_encodes host record hlid hjid
  have haccount := (account_follows host accountPayload).last
  have hrouting := (routing_follows host record).cons haccount
  have hplatform := Follows.cons (platform_follows record) hrouting
  have hcontacts := hcontact.cons hplatform
  have hhash := Follows.cons (hash_follows record) hcontacts
  have hcounter := (counter_follows host record).cons hhash
  have hsecret := (secret_follows host record).cons hcounter
  have hkeys := (keys_follows host record).cons hsecret
  unfold hydrateHostAuthCreds
  dsimp only
  rw [on_bind (on_checked hrecord),on_bind (on_checked hpn),on_bind (on_checked hlid)]
  exact (registration_follows host record).cons hkeys creds

/-- A check that rejects ends the procedure. -/
theorem on_checked_rejected {α β : Type} {check : Except StoreError α} (h : Rejects check)
    (rest : α → Hydration Account β) (creds : Creds Account) :
    ∃ error, (checked check >>= rest).on creds = (.error error,creds) := by
  obtain ⟨error,rfl⟩ := h
  exact ⟨error,rfl⟩

/-- A run that ends as it was is atomic. -/
theorem atomic_of_rejected {step : Hydration Account Unit} {creds : Creds Account}
    (h : ∃ error, step.on creds = (.error error,creds)) :
    ∀ error after, step.on creds = (.error error,after) → after = creds := by
  obtain ⟨_,hrun⟩ := h
  intro error after hfails
  rw [hrun] at hfails
  exact (congrArg Prod.snd hfails).symm

theorem rejects_of_error {α : Type} {check : Except StoreError α} {error : StoreError} (h : check = .error error) :
    Rejects check := ⟨error,h⟩

/-- The credentials hold what is assigned of a record before a check of it fails. -/
def HeldBefore (host : DeviceHost Account) (payload accountPayload : Option Bytes) (creds : Creds Account) : Prop :=
  ∀ bytes record pn lid, payload = some bytes → fromJsonBytes bytes = .ok record →
    parsePersistedJid record "pn" pnDomains = .ok pn → parsePersistedJid record "lid" lidDomains = .ok lid →
    Settled (recordStages host record pn lid accountPayload) creds

/-- A record whose own JIDs are read is read atomically exactly if what is assigned before a check
fails is held already. -/
theorem record_atomic_iff {payload : Bytes} {record : Value} {pn lid : Option PersistedJid}
    (hpayload : fromJsonBytes payload = .ok record) (hpn : parsePersistedJid record "pn" pnDomains = .ok pn)
    (hlid : parsePersistedJid record "lid" lidDomains = .ok lid) (accountPayload : Option Bytes) (creds : Creds Account) :
    (∀ error after, (hydrateHostAuthCreds host (some payload) accountPayload).on creds = (.error error,after) →
      after = creds) ↔ Settled (recordStages host record pn lid accountPayload) creds := by
  rw [hydrateHostAuthCreds_stages host hpayload hpn hlid,
    ← atomic_iff (recordStages_separate host record pn lid accountPayload) creds]
  constructor
  · rintro h ⟨error,herror⟩
    exact h error _ (Prod.ext herror rfl)
  · intro h error after hfails
    have hafter := h ⟨error,congrArg Prod.fst hfails⟩
    rw [hfails] at hafter
    exact hafter

/-- Reading a persisted device is atomic exactly if the credentials already hold what is assigned
before the check that fails. -/
theorem hydration_atomic_iff (host : DeviceHost Account) (payload accountPayload : Option Bytes) (creds : Creds Account) :
    (∀ error after, (hydrateHostAuthCreds host payload accountPayload).on creds = (.error error,after) → after = creds) ↔
      HeldBefore host payload accountPayload creds := by
  cases payload with
  | none =>
    refine ⟨fun _ _ _ _ _ h => (nomatch h),fun _ error after hfails => ?_⟩
    have hrun : (hydrateHostAuthCreds host none accountPayload).on creds = _ := account_follows host accountPayload creds
    rw [hrun] at hfails
    cases hcheck : (accountStage host accountPayload).check with
    | error failure =>
      rw [hcheck] at hfails
      exact (congrArg Prod.snd hfails).symm
    | ok value =>
      rw [hcheck] at hfails
      cases hfails
  | some bytes =>
    cases hpayload : fromJsonBytes bytes with
    | error error =>
      have hrejected : Rejects (parseRecord bytes) := ⟨_,by rw [parseRecord,hpayload]⟩
      refine ⟨fun _ _ _ _ _ hbytes hread => ?_,fun _ => atomic_of_rejected (on_checked_rejected hrejected _ creds)⟩
      cases hbytes
      rw [hpayload] at hread
      cases hread
    | ok record =>
      have hrecord : parseRecord bytes = .ok record := by
        rw [parseRecord,hpayload]
      cases hpn : parsePersistedJid record "pn" pnDomains with
      | error error =>
        have hrejected := rejects_of_error hpn
        refine ⟨fun _ _ _ _ _ hbytes hread hown => ?_,fun _ => atomic_of_rejected ?_⟩
        · cases hbytes
          rw [hpayload] at hread
          cases hread
          rw [hpn] at hown
          cases hown
        · unfold hydrateHostAuthCreds
          dsimp only
          rw [on_bind (on_checked hrecord)]
          exact on_checked_rejected hrejected _ creds
      | ok pn =>
        cases hlid : parsePersistedJid record "lid" lidDomains with
        | error error =>
          have hrejected := rejects_of_error hlid
          refine ⟨fun _ _ _ _ _ hbytes hread _ hown => ?_,fun _ => atomic_of_rejected ?_⟩
          · cases hbytes
            rw [hpayload] at hread
            cases hread
            rw [hlid] at hown
            cases hown
          · unfold hydrateHostAuthCreds
            dsimp only
            rw [on_bind (on_checked hrecord),on_bind (on_checked hpn)]
            exact on_checked_rejected hrejected _ creds
        | ok lid =>
          refine (record_atomic_iff host hpayload hpn hlid accountPayload creds).trans ⟨fun hsettled => ?_,fun h =>
            h bytes record pn lid rfl hpayload hpn hlid⟩
          intro _ _ _ _ hbytes hread hpn' hlid'
          cases hbytes
          rw [hpayload] at hread
          cases hread
          rw [hpn] at hpn'
          rw [hlid] at hlid'
          cases hpn'
          cases hlid'
          exact hsettled

/-- A record with a registration id and an empty noise key. -/
def keylessMembers : List (JsString × Value) :=
  [(ofString "registration_id",counter 8),(ofString "noise_key",.array [])]

theorem keylessMembers_clean : Clean (.object keylessMembers) := by
  refine .record ?_ (by decide)
  simp only [keylessMembers,List.map_cons,List.map_nil,List.forall_mem_cons,List.not_mem_nil,false_imp_iff,
    implies_true,and_true]
  exact ⟨counter_clean (by decide),.array [] fun _ h => (nomatch h)⟩

/-- Its registration id is accepted, and its noise key is not. -/
theorem keyless_checks : registrationCheck plainHost (.object keylessMembers) = .ok () ∧
    Rejects (keysCheck plainHost (.object keylessMembers)) := by
  have hfield : CounterField keylessMembers "registration_id" (.ofRatio false 8 1) :=
    ⟨rfl,@isSafeUnsigned_ofRatio 8 (by decide)⟩
  have hrange : exceedsRegistration (.ofRatio false 8 1) = false := by
    rw [exceedsRegistration,@ratio_ofRatio_nat 8 (by decide)]
    decide
  refine ⟨?_,_,rfl⟩
  rw [registrationCheck,fieldCheck,hasField_property hfield.1,hfield.value,Option.all_some,hrange]
  rfl

/-- A registration id is assigned although the noise key behind it is rejected. -/
theorem hydration_assigns_rejected :
    ¬∀ (payload accountPayload : Option Bytes) (creds : Creds Bytes) (error : StoreError) (after : Creds Bytes),
      (hydrateHostAuthCreds plainHost payload accountPayload).on creds = (.error error,after) → after = creds := by
  intro h
  obtain ⟨payload,_,hpayload⟩ := keylessMembers_clean.bytes
  have hsettled := (record_atomic_iff plainHost hpayload rfl rfl none pairedCreds).mp (h _ _ _)
  obtain ⟨hregistration,hkeys⟩ := keyless_checks
  have hheld := (hsettled hregistration).1 ⟨_,List.mem_cons_self,hkeys⟩
  have hsame : counter 7 = counter 8 := hheld (counter 8) (congrArg (Option.map Value.number)
    (CounterField.value ⟨rfl,@isSafeUnsigned_ofRatio 8 (by decide)⟩))
  have hvalues := ofRatio_injective (by decide) (by decide) (Value.number.inj hsame)
  cases hvalues

end Stages

end Baileyrs.HostHydration
