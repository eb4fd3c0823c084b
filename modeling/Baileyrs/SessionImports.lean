import Baileyrs.CodecRounds
import Baileyrs.DeviceRounds
import Baileyrs.LabelledRuns
import Baileyrs.SignalCodecs

/-!
# Imports of legacy sessions

A legacy session names neither the local identity nor the registration id, so an import
takes them from the credentials. The adapter copies them when it wraps the store, while a
device record that is written later replaces them in the credentials. With transactions of
the backend every call wraps the store again, and copies them again.
-/

namespace Baileyrs.SessionImports

open JsString JsNumber AtomicStore LegacyValues LegacyProjection LegacyMirror RuntimeBytes DeviceCredentials LabelledRuns

section Model

variable {Account : Type}

/-- What the adapter runs on. -/
structure Backend (Account : Type) where
  /-- Values of device records that are no texts. -/
  device : DeviceHost Account
  /-- Values that the codecs convert. -/
  host : CodecHost
  /-- Codecs of keys. -/
  keys : KeyComponents
  /-- Codecs of sender keys and sessions. -/
  signal : SignalComponents
  /-- Digest of mirrors. -/
  digest : Digest
  /-- What reading a value gives after it was set. -/
  carry : String → Value → Value

/-- The public identity key of credentials. -/
def publicKeyOf (creds : Creds Account) : Value := (creds.signedIdentityKey.map fun pair => .bytes pair.publicKey).getD .undefined

/-- What the codecs copy from credentials; none without identity keys. -/
def localDefaults (creds : Creds Account) : Option SignalDefaults :=
  creds.signedIdentityKey.map fun _ => ⟨publicKeyOf creds,creds.registrationId⟩

/-- A wrapped store. -/
structure Wrapper (Account : Type) where
  /-- The backend has transactions. -/
  bridgeTransaction : Bool
  /-- What the codecs copied when the store was wrapped. -/
  captured : SignalDefaults
  /-- The credentials, and what was persisted of them. -/
  device : DeviceStore Account
  /-- The legacy key store. -/
  keys : KeyStore

/-- Wrap a store. -/
def wrapLegacyStore (bridgeTransaction : Bool) (creds : Creds Account) (keys : KeyStore) : Option (Wrapper Account) :=
  (localDefaults creds).map fun captured => ⟨bridgeTransaction,captured,⟨creds,[],[]⟩,keys⟩

/-- What the codecs of a call hold: a call in a transaction wraps the store again. -/
def Wrapper.defaults (s : Wrapper Account) : Option SignalDefaults :=
  if s.bridgeTransaction then localDefaults s.device.creds else some s.captured

/-- What happens to a wrapped store. -/
inductive Action where
  /-- Read keys of a projected store. -/
  | getMany (store : ProjectedStore) (requested : List JsString)
  /-- Write keys of a projected store. -/
  | setMany (store : ProjectedStore) (entries : List (JsString × Bytes))
  /-- Remove keys of a projected store. -/
  | deleteMany (store : ProjectedStore) (requested : List JsString)
  /-- Write device records, with what the two writes of the backend make of it. -/
  | setDevice (saveCreds saveRows : Except StoreError Unit) (entries : List (JsString × Bytes))
  /-- A call that converts nothing, a commit that fails, or another owner: it leaves these rows. -/
  | rows (rows : LegacyRows)

variable (backend : Backend Account)

/-- The codecs with what they copied. -/
def Backend.codecs (backend : Backend Account) (defaults : SignalDefaults) : Codecs :=
  createCodecs backend.host backend.keys backend.signal (some defaults)

/-- Call the adapter; wrapping the store again may fail. -/
def Wrapper.call (s : Wrapper Account) (f : Codecs → KeyStore → KeyStore) : Wrapper Account :=
  match s.defaults with
  | some defaults => { s with keys := f (backend.codecs defaults) s.keys }
  | none => s

/-- One step of a wrapped store. -/
def step (s : Wrapper Account) : Action → Option (Wrapper Account)
  | .getMany store requested => some (s.call backend fun codecs keys => (getMany codecs backend.digest backend.carry store requested keys).2)
  | .setMany store entries => some (s.call backend fun codecs keys => (setMany codecs backend.digest backend.carry store entries keys).2)
  | .deleteMany store requested => some (s.call backend fun codecs keys => (deleteMany codecs backend.carry store requested keys).2)
  | .setDevice saveCreds saveRows entries =>
    some (if s.defaults.isNone then s
      else { s with device := (writeMany backend.device backend.digest saveCreds saveRows entries s.device).2 })
  | .rows rows => some { s with keys := ⟨rows,s.keys.writes+1⟩ }

end Model

section Calls

/-- A call of the importer. -/
structure ImportCall where
  /-- The sessions. -/
  record : SessionRecord
  /-- The local identity key that it is given. -/
  identityKey : Bytes
  /-- The local registration id that it is given. -/
  registrationId : Value

/-- How the importer is called for a legacy session. -/
def sessionCall (defaults : SignalDefaults) (value : Value) : Except StoreError ImportCall :=
  if Session.isObject value = false then .error (.typeError "legacy session record must be an object")
  else
    match optionalMember value "version",(optionalMember value "_sessions").isTruthy with
    | .string version,true =>
      if version = ofString "v1" then do
        let record ← Session.recordToCore value
        let identity ← serializeSignalPublicKey defaults.localIdentityPublic "local identity key"
        return ⟨record,identity,defaults.localRegistrationId⟩
      else .error (.typeError "legacy session record has an unsupported shape or version")
    | _,_ => .error (.typeError "legacy session record has an unsupported shape or version")

variable (digest : Digest)

/-- What a read makes of a key without an import, or how the importer is called for it. -/
def envelopeCall (defaults : SignalDefaults) (rows : LegacyRows) (key translated : JsString) (envelope : Option NativeEnvelope) :
    Except StoreError (Imported ⊕ ImportCall) :=
  match mirroredBytes digest envelope (rows.read ProjectedStore.session.legacyType translated) with
  | some payload => .ok (.inl ⟨key,some payload,none⟩)
  | none =>
    if (rows.read ProjectedStore.session.legacyType translated).isNullish then
      .ok (.inl ⟨key,none,mendMirror digest (rows.read ProjectedStore.session.nativeType key)
        (rows.read ProjectedStore.session.legacyType translated) none⟩)
    else (sessionCall defaults (rows.read ProjectedStore.session.legacyType translated)).map .inr

/-- The same, with the envelope of the mirror of the key. -/
def keyCall (defaults : SignalDefaults) (rows : LegacyRows) (key translated : JsString) : Except StoreError (Imported ⊕ ImportCall) :=
  (decodeNativeEnvelope (rows.read ProjectedStore.session.nativeType key)).bind (envelopeCall digest defaults rows key translated)

variable {Account : Type} (backend : Backend Account)

/-- The importer is called. -/
def Backend.import (backend : Backend Account) (call : ImportCall) : Except StoreError Bytes :=
  backend.signal.importSession call.record call.identityKey call.registrationId

/-- How it is called for several keys, up to one that fails. -/
def pairCalls (defaults : SignalDefaults) (rows : LegacyRows) : List (JsString × JsString) → List ImportCall
  | [] => []
  | pair::rest =>
    match keyCall backend.digest defaults rows pair.1 pair.2 with
    | .error _ => []
    | .ok (.inl _) => pairCalls defaults rows rest
    | .ok (.inr call) => call::if (backend.import call).isOk then pairCalls defaults rows rest else []

/-- How it is called by a read of sessions. -/
def readCalls (defaults : SignalDefaults) (rows : LegacyRows) (requested : List JsString) : List ImportCall :=
  match translateAll (backend.codecs defaults) .session requested "getMany" with
  | .ok translated => pairCalls backend defaults rows translated
  | .error _ => []

/-- How it is called by what happens to a wrapped store. -/
def Wrapper.calls (s : Wrapper Account) : Action → List ImportCall
  | .getMany .session requested =>
    match s.defaults with
    | some defaults => readCalls backend defaults s.keys.rows requested
    | none => []
  | _ => []

/-- A session is imported by a call of the importer. -/
theorem fromLegacy_eq (defaults : SignalDefaults) (value : Value) :
    Session.fromLegacy backend.signal (some defaults) value =
      (sessionCall defaults value).bind fun call => (backend.import call).map some := by
  unfold sessionCall Session.fromLegacy
  cases hobject : Session.isObject value with
  | false => rfl
  | true =>
    rw [if_neg (by decide),if_neg (by decide)]
    cases optionalMember value "version" with
    | string version =>
      cases (optionalMember value "_sessions").isTruthy with
      | false => rfl
      | true =>
        dsimp only
        by_cases hversion : version = ofString "v1"
        · rw [if_pos hversion,if_pos hversion]
          cases Session.recordToCore value with
          | error error => rfl
          | ok record =>
            cases serializeSignalPublicKey defaults.localIdentityPublic "local identity key" with
            | error error => rfl
            | ok identity =>
              change (backend.import ⟨record,identity,defaults.localRegistrationId⟩).bind _ = Except.map some
                (backend.import ⟨record,identity,defaults.localRegistrationId⟩)
              cases backend.import ⟨record,identity,defaults.localRegistrationId⟩ with
              | error error => rfl
              | ok bytes => rfl
        · rw [if_neg hversion,if_neg hversion]
          rfl
    | _ => rfl

end Calls

section Traces

variable {Account : Type} {backend : Backend Account} {defaults : SignalDefaults} {rows : LegacyRows}

/-- What the importer is given is what the codec holds. -/
structure Passes (defaults : SignalDefaults) (call : ImportCall) : Prop where
  /-- The identity key, serialized. -/
  identityKey : serializeSignalPublicKey defaults.localIdentityPublic "local identity key" = .ok call.identityKey
  /-- The registration id. -/
  registrationId : call.registrationId = defaults.localRegistrationId

theorem sessionCall_passes {value : Value} {call : ImportCall} (h : sessionCall defaults value = .ok call) : Passes defaults call := by
  unfold sessionCall at h
  split at h
  · cases h
  · split at h
    · split at h
      · cases hrecord : Session.recordToCore value with
        | error error =>
          rw [hrecord] at h
          cases h
        | ok record =>
          cases hidentity : serializeSignalPublicKey defaults.localIdentityPublic "local identity key" with
          | error error =>
            rw [hrecord,hidentity] at h
            cases h
          | ok identity =>
            rw [hrecord,hidentity] at h
            cases h
            exact ⟨hidentity,rfl⟩
      · cases h
    · cases h

theorem keyCall_passes {digest : Digest} {key translated : JsString} {call : ImportCall}
    (h : keyCall digest defaults rows key translated = .ok (.inr call)) : Passes defaults call := by
  unfold keyCall at h
  cases henvelope : decodeNativeEnvelope (rows.read ProjectedStore.session.nativeType key) with
  | error error =>
    rw [henvelope] at h
    cases h
  | ok envelope =>
    rw [henvelope] at h
    change envelopeCall digest defaults rows key translated envelope = _ at h
    unfold envelopeCall at h
    split at h
    · cases h
    · split at h
      · cases h
      · cases hcall : sessionCall defaults (rows.read ProjectedStore.session.legacyType translated) with
        | error error =>
          rw [hcall] at h
          cases h
        | ok made =>
          rw [hcall] at h
          cases h
          exact sessionCall_passes hcall

/-- Every call of a read passes what the codec holds. -/
theorem pairCalls_passes (pairs : List (JsString × JsString)) : ∀ call ∈ pairCalls backend defaults rows pairs, Passes defaults call := by
  induction pairs with
  | nil => exact fun _ h => absurd h List.not_mem_nil
  | cons pair rest ih =>
    unfold pairCalls
    split
    · exact fun _ h => absurd h List.not_mem_nil
    · exact ih
    · rename_i made hmade
      intro call hcall
      cases List.mem_cons.mp hcall with
      | inl hfirst =>
        rw [hfirst]
        exact keyCall_passes hmade
      | inr hrest =>
        split at hrest
        · exact ih call hrest
        · exact absurd hrest List.not_mem_nil

theorem readCalls_passes (requested : List JsString) : ∀ call ∈ readCalls backend defaults rows requested, Passes defaults call := by
  unfold readCalls
  split
  · exact pairCalls_passes _
  · exact fun _ h => absurd h List.not_mem_nil

variable {importSession : SessionRecord → Bytes → Value → Except StoreError Bytes}

end Traces

section Runs

variable {Account : Type} {backend : Backend Account} {s next : Wrapper Account} {action : Action}

/-- Credentials with the same identity key, as it is serialized, and the same registration id. -/
structure SameIdentity (creds other : Creds Account) : Prop where
  /-- The identity key. -/
  identityKey : serializeSignalPublicKey (publicKeyOf other) "local identity key" =
    serializeSignalPublicKey (publicKeyOf creds) "local identity key"
  /-- The registration id. -/
  registrationId : other.registrationId = creds.registrationId

/-- Every import is given what the credentials hold. -/
def PassesCurrent (backend : Backend Account) (s : Wrapper Account) (action : Action) : Prop :=
  ∀ call ∈ s.calls backend action,
    serializeSignalPublicKey (publicKeyOf s.device.creds) "local identity key" = .ok call.identityKey ∧
      call.registrationId = s.device.creds.registrationId

/-- Credentials with which a session is imported are those that the store was wrapped with, or the
store is wrapped again. -/
def ImportsWrapped (backend : Backend Account) (wrapped : Creds Account) (s : Wrapper Account) (action : Action) : Prop :=
  s.bridgeTransaction = true ∨ s.calls backend action = [] ∨ SameIdentity wrapped s.device.creds

/-- A step leaves the identity of the credentials as it is. -/
def KeepsIdentity (backend : Backend Account) (s : Wrapper Account) (action : Action) : Prop :=
  ∀ next, step backend s action = some next → SameIdentity s.device.creds next.device.creds

/-- Every call of a step is given what its codecs hold. -/
theorem calls_passes {defaults : SignalDefaults} (h : s.defaults = some defaults) :
    ∀ call ∈ s.calls backend action, Passes defaults call := by
  intro call hcall
  unfold Wrapper.calls at hcall
  split at hcall
  · rw [h] at hcall
    exact readCalls_passes _ call hcall
  · exact absurd hcall List.not_mem_nil

theorem localDefaults_eq {creds : Creds Account} {defaults : SignalDefaults} (h : localDefaults creds = some defaults) :
    defaults = ⟨publicKeyOf creds,creds.registrationId⟩ := by
  obtain ⟨pair,_,rfl⟩ := Option.map_eq_some_iff.mp h
  rfl

/-- A step copies nothing into the wrapper. -/
theorem step_captured (h : step backend s action = some next) :
    next.captured = s.captured ∧ next.bridgeTransaction = s.bridgeTransaction := by
  have hcall : ∀ f, (s.call backend f).captured = s.captured ∧ (s.call backend f).bridgeTransaction = s.bridgeTransaction := by
    intro f
    unfold Wrapper.call
    split
    · exact ⟨rfl,rfl⟩
    · exact ⟨rfl,rfl⟩
  cases action with
  | getMany store requested =>
    cases h
    exact hcall _
  | setMany store entries =>
    cases h
    exact hcall _
  | deleteMany store requested =>
    cases h
    exact hcall _
  | setDevice saveCreds saveRows entries =>
    cases h
    split
    · exact ⟨rfl,rfl⟩
    · exact ⟨rfl,rfl⟩
  | rows rows =>
    cases h
    exact ⟨rfl,rfl⟩

/-- With transactions every import is given what the credentials hold. -/
theorem passesCurrent_transaction (h : s.bridgeTransaction = true) : PassesCurrent backend s action := by
  intro call hcall
  cases hdefaults : s.defaults with
  | none =>
    unfold Wrapper.calls at hcall
    split at hcall
    · rw [hdefaults] at hcall
      exact absurd hcall List.not_mem_nil
    · exact absurd hcall List.not_mem_nil
  | some defaults =>
    have hpasses := calls_passes hdefaults call hcall
    rw [Wrapper.defaults,if_pos h] at hdefaults
    rw [localDefaults_eq hdefaults] at hpasses
    exact ⟨hpasses.identityKey,hpasses.registrationId⟩

/-- Without transactions an import is given what the credentials hold exactly where they have the
identity that the store was wrapped with. -/
theorem passesCurrent_iff {wrapped : Creds Account} (hcaptured : s.captured = ⟨publicKeyOf wrapped,wrapped.registrationId⟩) :
    PassesCurrent backend s action ↔ ImportsWrapped backend wrapped s action := by
  cases htransaction : s.bridgeTransaction with
  | true => exact ⟨fun _ => .inl htransaction,fun _ => passesCurrent_transaction htransaction⟩
  | false =>
    have hdefaults : s.defaults = some s.captured := by
      rw [Wrapper.defaults,htransaction,if_neg Bool.false_ne_true]
    have hpasses : ∀ call ∈ s.calls backend action, Passes s.captured call := calls_passes hdefaults
    rw [hcaptured] at hpasses
    constructor
    · intro hcurrent
      refine .inr ?_
      cases hcalls : s.calls backend action with
      | nil => exact .inl rfl
      | cons call rest =>
        have hmem : call ∈ s.calls backend action := by
          rw [hcalls]
          exact List.mem_cons_self
        have hnow := hcurrent call hmem
        have hthen := hpasses call hmem
        exact .inr ⟨hnow.1.trans hthen.identityKey.symm,hnow.2.symm.trans hthen.registrationId⟩
    · intro himports call hcall
      rcases himports with htrue | hnone | hsame
      · rw [htransaction] at htrue
        cases htrue
      · rw [hnone] at hcall
        exact absurd hcall List.not_mem_nil
      · have hthen := hpasses call hcall
        exact ⟨hsame.identityKey.trans hthen.identityKey,hthen.registrationId.trans hsame.registrationId.symm⟩

/-- In every run imports are given what the credentials hold exactly where the backend has
transactions or no device record has replaced their identity since the store was wrapped. -/
theorem session_imports_iff {bridgeTransaction : Bool} {wrapped : Creds Account} {keys : KeyStore}
    (hwrap : wrapLegacyStore bridgeTransaction wrapped keys = some s) (actions : List Action) :
    (Guarded (step backend) (PassesCurrent backend) s actions ↔
      Guarded (step backend) (ImportsWrapped backend wrapped) s actions) ∧
    (Guarded (step backend) (fun t action => t.bridgeTransaction = true ∨ KeepsIdentity backend t action) s actions →
      Guarded (step backend) (PassesCurrent backend) s actions) := by
  obtain ⟨captured,hcaptured,rfl⟩ := Option.map_eq_some_iff.mp hwrap
  have hstart := localDefaults_eq hcaptured
  have hkept : ∀ t action next, t.captured = ⟨publicKeyOf wrapped,wrapped.registrationId⟩ → step backend t action = some next →
      next.captured = ⟨publicKeyOf wrapped,wrapped.registrationId⟩ :=
    fun t action next ht hstep => (step_captured hstep).1.trans ht
  refine ⟨guarded_congr hkept (fun t action ht => passesCurrent_iff ht) hstart actions,fun hguarded => ?_⟩
  refine Guarded.implies (I := fun t => t.captured = ⟨publicKeyOf wrapped,wrapped.registrationId⟩ ∧
    (t.bridgeTransaction = true ∨ SameIdentity wrapped t.device.creds)) ?_ ?_ ⟨hstart,.inr ⟨rfl,rfl⟩⟩ hguarded
  · intro t action next ht hguard hstep
    refine ⟨hkept t action next ht.1 hstep,?_⟩
    cases hguard with
    | inl htransaction => exact .inl ((step_captured hstep).2.trans htransaction)
    | inr hkeeps =>
      cases ht.2 with
      | inl htransaction => exact .inl ((step_captured hstep).2.trans htransaction)
      | inr hsame =>
        have hnext := hkeeps next hstep
        exact .inr ⟨hnext.identityKey.trans hsame.identityKey,hnext.registrationId.trans hsame.registrationId⟩
  · intro t action ht
    refine (passesCurrent_iff ht.1).mpr ?_
    cases ht.2 with
    | inl htransaction => exact .inl htransaction
    | inr hsame => exact .inr (.inr hsame)

/-- A session of an address of no sessions. -/
def emptySession : Value := .object [(ofString "version",.string (ofString "v1")),(ofString "_sessions",.object [])]

/-- Rows with a legacy session. -/
def sessionRows (type : String) (key : JsString) : Option Value :=
  if type = "session" ∧ key = ofString "15550001.0" then some emptySession else none

/-- A backend whose importer refuses every session. -/
def plainBackend : Backend Bytes :=
  ⟨plainHost,unitHost,emptyKeys,emptySignal,⟨fun _ => List.replicate 32 0,fun _ => rfl⟩,fun _ value => value⟩

/-- Credentials of a device before it is paired. -/
def freshCreds : Creds Bytes := { pairedCreds with me := none }

/-- A device record with another registration id. -/
def replacingEntries : List (JsString × Bytes) :=
  [(ofString "device",encodeUtf8 (ofString "\x7b\"registration_id\":9\x7d"))]

/-- The record, and a read of a session behind it. -/
def replacingActions : List Action :=
  [.setDevice (.ok ()) (.ok ()) replacingEntries,.getMany .session [ofString "15550001@c.us.0"]]

/-- The wrapped store of these credentials. -/
def freshWrapper (bridgeTransaction : Bool) : Wrapper Bytes :=
  ⟨bridgeTransaction,⟨publicKeyOf freshCreds,freshCreds.registrationId⟩,⟨freshCreds,[],[]⟩,⟨sessionRows,0⟩⟩

/-- A value is this number. -/
def isNumber (x : JsNumber) : Value → Bool
  | .number y => y = x
  | _ => false

theorem isNumber_iff {x : JsNumber} {value : Value} : isNumber x value = true ↔ value = .number x := by
  cases value with
  | number y => exact decide_eq_true_iff.trans ⟨fun h => congrArg Value.number h,fun h => Value.number.inj h⟩
  | _ => exact ⟨(fun h => nomatch h),fun h => nomatch h⟩

/-- A session that is imported behind a device record is given the registration id from before. -/
theorem session_imports_stale : wrapLegacyStore false freshCreds ⟨sessionRows,0⟩ = some (freshWrapper false) ∧
    ¬Guarded (step plainBackend) (PassesCurrent plainBackend) (freshWrapper false) replacingActions := by
  refine ⟨rfl,fun hguarded => ?_⟩
  have hnow : isNumber (ofRatio false 9 1) (writeMany plainHost plainBackend.digest (.ok ()) (.ok ()) replacingEntries
      ⟨freshCreds,[],[]⟩).2.creds.registrationId = true := by
    decide +kernel
  have hcalls : (readCalls plainBackend ⟨publicKeyOf freshCreds,freshCreds.registrationId⟩ sessionRows
      [ofString "15550001@c.us.0"]).isEmpty = false := by
    decide +kernel
  have hafter : step plainBackend (freshWrapper false) (.setDevice (.ok ()) (.ok ()) replacingEntries) =
      some { freshWrapper false with device := (writeMany plainHost plainBackend.digest (.ok ()) (.ok ()) replacingEntries
        ⟨freshCreds,[],[]⟩).2 } := rfl
  generalize (writeMany plainHost plainBackend.digest (.ok ()) (.ok ()) replacingEntries ⟨freshCreds,[],[]⟩).2 = device at hnow hafter
  have hcurrent := (hguarded.2 _ hafter).1
  have hread : (Wrapper.calls plainBackend { freshWrapper false with device := device } (.getMany .session [ofString "15550001@c.us.0"])) =
      readCalls plainBackend ⟨publicKeyOf freshCreds,freshCreds.registrationId⟩ sessionRows [ofString "15550001@c.us.0"] := rfl
  unfold PassesCurrent at hcurrent
  rw [hread] at hcurrent
  have hpasses := @readCalls_passes _ plainBackend ⟨publicKeyOf freshCreds,freshCreds.registrationId⟩ sessionRows
    [ofString "15550001@c.us.0"]
  generalize readCalls plainBackend ⟨publicKeyOf freshCreds,freshCreds.registrationId⟩ sessionRows [ofString "15550001@c.us.0"] =
    calls at hcalls hcurrent hpasses
  cases calls with
  | nil => cases hcalls
  | cons call rest =>
    have hthen : call.registrationId = .number (ofRatio false 7 1) := (hpasses call List.mem_cons_self).registrationId
    have hsame := (hcurrent call List.mem_cons_self).2
    rw [hthen] at hsame
    have hnine := (isNumber_iff.mp hnow).symm.trans hsame.symm
    have hseven : ofRatio false 9 1 ≠ ofRatio false 7 1 := by decide +kernel
    exact hseven (Value.number.inj hnine)

/-- With transactions it is given the one that was written. -/
theorem session_imports_iff_transaction :
    Guarded (step plainBackend) (PassesCurrent plainBackend) (freshWrapper true) replacingActions := by
  have hwrap : wrapLegacyStore true freshCreds ⟨sessionRows,0⟩ = some (freshWrapper true) := rfl
  refine (session_imports_iff hwrap replacingActions).2 ⟨.inl rfl,fun next hnext => ⟨.inl ?_,fun _ _ => trivial⟩⟩
  exact (step_captured hnext).2

end Runs

end Baileyrs.SessionImports
