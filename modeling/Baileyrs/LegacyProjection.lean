import Baileyrs.LegacyMirror
import Baileyrs.TransactionalStore
import Mathlib.Logic.Function.Basic

/-!
# Native stores projected onto a legacy key store

A write puts the projection of native bytes into the legacy row and the exact
bytes into a mirror row, under a fingerprint of the projection. A read returns
the mirrored bytes while the legacy row still has that fingerprint; otherwise
another owner wrote the row, and the read converts it and mends the mirror.
-/

namespace Baileyrs.LegacyProjection

open JsString AtomicStore LegacyValues LegacyMirror

/-- Native stores with a legacy projection. -/
inductive ProjectedStore where
  | identity
  | session
  | prekey
  | senderKey
  | syncKey
  | syncVersion
  | deviceList
  | tcToken
  | lidMapping
  deriving DecidableEq

namespace ProjectedStore

/-- Name of a native store. -/
def name : ProjectedStore → String
  | .identity => "identity"
  | .session => "session"
  | .prekey => "prekey"
  | .senderKey => "sender_key"
  | .syncKey => "sync_key"
  | .syncVersion => "sync_version"
  | .deviceList => "device_list"
  | .tcToken => "tc_token"
  | .lidMapping => "lid_mapping"

/-- Type of its legacy rows. -/
def legacyType : ProjectedStore → String
  | .identity => "identity-key"
  | .session => "session"
  | .prekey => "pre-key"
  | .senderKey => "sender-key"
  | .syncKey => "app-state-sync-key"
  | .syncVersion => "app-state-sync-version"
  | .deviceList => "device-list"
  | .tcToken => "tctoken"
  | .lidMapping => "lid-mapping"

/-- Type of its mirror rows. -/
def nativeType : ProjectedStore → String
  | .identity => "bridge-native-identity"
  | .session => "bridge-native-session"
  | .prekey => "bridge-native-prekey"
  | .senderKey => "bridge-native-sender-key"
  | .syncKey => "bridge-native-sync-key"
  | .syncVersion => "bridge-native-sync-version"
  | .deviceList => "bridge-native-device-list"
  | .tcToken => "bridge-native-tc-token"
  | .lidMapping => "bridge-native-lid-mapping"

theorem legacyType_injective {s t : ProjectedStore} (h : s.legacyType = t.legacyType) : s = t := by
  revert h
  cases s <;> cases t <;> decide

theorem nativeType_injective {s t : ProjectedStore} (h : s.nativeType = t.nativeType) : s = t := by
  revert h
  cases s <;> cases t <;> decide

theorem nativeType_ne_legacyType (s t : ProjectedStore) : s.nativeType ≠ t.legacyType := by
  cases s <;> cases t <;> decide

end ProjectedStore

/-- Conversions between native records and their projections. -/
structure Codecs where
  /-- Key of the legacy row of a native key. -/
  legacyKey : ProjectedStore → JsString → Except StoreError JsString
  /-- Native bytes of a legacy value; none for a value without a record. -/
  fromLegacy : ProjectedStore → JsString → Value → Except StoreError (Option Bytes)
  /-- Projection of native bytes; none when the legacy format cannot express them. -/
  toLegacy : ProjectedStore → JsString → Bytes → Except StoreError (Option Value)

/-- Rows of a legacy key store by type and key, as they read. -/
abbrev LegacyRows := String → JsString → Option Value

/-- Values of one type with their keys. -/
abbrev Bucket := List (JsString × Value)

/-- A legacy key store, with the number of writes it took. -/
structure KeyStore where
  /-- Its rows. -/
  rows : LegacyRows
  /-- Calls that wrote to it. -/
  writes : ℕ

/-- First key of a list that repeats an earlier one. -/
def firstDuplicate : List JsString → List JsString → Option JsString
  | _,[] => none
  | seen,key::rest => if seen.contains key then some key else firstDuplicate (key::seen) rest

/-- Refuse keys with a duplicate. -/
def uniqueKeys (keys : List JsString) (label : String) : Except StoreError Unit :=
  match firstDuplicate [] keys with
  | some key => .error (.typeError (label++" contains duplicate key: "++shown key))
  | none => .ok ()

/-- Value of a row; a missing one is `null`. -/
def LegacyRows.read (rows : LegacyRows) (type : String) (key : JsString) : Value :=
  (rows type key).getD .null

section Adapter

variable (codecs : Codecs) (digest : Digest)

-- What reading a value of a type gives after it was set.
variable (carry : String → Value → Value)

/-- Row a value leaves; an absent value leaves none. -/
def rowOf (type : String) (value : Value) : Option Value :=
  if value.isNullish then none else some (carry type value)

/-- Write one row. -/
def putRow (rows : LegacyRows) (type : String) (key : JsString) (value : Value) : LegacyRows :=
  fun t k => if t = type ∧ k = key then rowOf carry type value else rows t k

/-- Write the values of one type. -/
def putBucket (rows : LegacyRows) (type : String) (bucket : Bucket) : LegacyRows :=
  bucket.foldl (fun rows entry => putRow carry rows type entry.1 entry.2) rows

/-- Write updates; without any value nothing is written. -/
def persist (updates : List (String × Bucket)) (s : KeyStore) : KeyStore :=
  if updates.all fun bucket => bucket.2.isEmpty then s
  else ⟨updates.foldl (fun rows bucket => putBucket carry rows bucket.1 bucket.2) s.rows,s.writes+1⟩

/-- What a read makes of one key: its bytes, and what to write to its mirror. -/
structure Imported where
  /-- The native key. -/
  key : JsString
  /-- Bytes to return. -/
  value : Option Bytes
  /-- New value of the mirror row. -/
  mirror : Option Value

/-- Bytes of the legacy row of a key; a missing row has none. -/
def importLegacy (store : ProjectedStore) (rows : LegacyRows) (key translated : JsString) :
    Except StoreError (Option Bytes) :=
  if (rows.read store.legacyType translated).isNullish then .ok none
  else codecs.fromLegacy store key (rows.read store.legacyType translated)

/-- New mirror row for bytes read from the legacy row; without bytes a mirror
is only removed when there is one. -/
def mendMirror (native legacyValue : Value) : Option Bytes → Option Value
  | some bytes => some (.bytes (encodeNativeEnvelope digest bytes legacyValue))
  | none => if native.isNullish then none else some .null

/-- Bytes of a mirror whose legacy row did not change. -/
def mirroredBytes (envelope : Option NativeEnvelope) (legacyValue : Value) : Option Bytes :=
  match envelope with
  | some envelope =>
    if envelopeMatchesLegacy digest envelope legacyValue then some envelope.payload else none
  | none => none

/-- Read one key from its mirror, or from its legacy row when that changed. -/
def importKey (store : ProjectedStore) (rows : LegacyRows) (key translated : JsString) :
    Except StoreError Imported := do
  let envelope ← decodeNativeEnvelope (rows.read store.nativeType key)
  match mirroredBytes digest envelope (rows.read store.legacyType translated) with
  | some payload => return ⟨key,some payload,none⟩
  | none => do
    let nativeValue ← importLegacy codecs store rows key translated
    return ⟨key,nativeValue,mendMirror digest (rows.read store.nativeType key)
      (rows.read store.legacyType translated) nativeValue⟩

/-- Legacy keys of native keys. -/
def translate (store : ProjectedStore) (requested : List JsString) :
    Except StoreError (List (JsString × JsString)) :=
  requested.mapM fun key => do
    let translated ← codecs.legacyKey store key
    return (key,translated)

/-- Distinct legacy keys of distinct native keys. -/
def translateAll (store : ProjectedStore) (requested : List JsString) (method : String) :
    Except StoreError (List (JsString × JsString)) := do
  uniqueKeys requested (store.name++" "++method)
  let translated ← translate codecs store requested
  uniqueKeys (translated.map Prod.snd) (store.name++" legacy-key projection")
  return translated

/-- Read several keys of a projected store. -/
def readProjected (store : ProjectedStore) (requested : List JsString) (rows : LegacyRows) :
    Except StoreError (List Imported) := do
  let translated ← translateAll codecs store requested "getMany"
  translated.mapM fun pair => importKey codecs digest store rows pair.1 pair.2

/-- Mirror rows a read writes. -/
def mirrorUpdates (imported : List Imported) : Bucket :=
  imported.filterMap fun one => one.mirror.map fun value => (one.key,value)

/-- Bytes a read returns. -/
def readResults (imported : List Imported) : List (JsString × Bytes) :=
  imported.filterMap fun one => one.value.map fun value => (one.key,value)

/-- Read several keys. -/
def getMany (store : ProjectedStore) (requested : List JsString) (s : KeyStore) :
    Except StoreError (List (JsString × Bytes)) × KeyStore :=
  if requested.isEmpty then (.ok [],s)
  else
    match readProjected codecs digest store requested s.rows with
    | .ok imported =>
      (.ok (readResults imported),
        if (mirrorUpdates imported).isEmpty then s
        else persist carry [(store.nativeType,mirrorUpdates imported)] s)
    | .error error => (.error error,s)

/-- Read one key. -/
def get (store : ProjectedStore) (key : JsString) (s : KeyStore) :
    Except StoreError (Option Bytes) × KeyStore :=
  match getMany codecs digest carry store [key] s with
  | (.ok results,last) => (.ok (results.head?.map Prod.snd),last)
  | (.error error,last) => (.error error,last)

/-- One entry of a write, with its projection. -/
structure Projection where
  /-- The native key. -/
  key : JsString
  /-- The native bytes. -/
  value : Bytes
  /-- Key of the legacy row. -/
  translated : JsString
  /-- Projection of the bytes. -/
  legacyValue : Option Value

/-- Project one entry. -/
def project (store : ProjectedStore) (entry : JsString × Bytes) : Except StoreError Projection := do
  let translated ← codecs.legacyKey store entry.1
  let legacyValue ← codecs.toLegacy store entry.1 entry.2
  return ⟨entry.1,entry.2,translated,legacyValue⟩

/-- Project the entries of a write. -/
def projectAll (store : ProjectedStore) (entries : List (JsString × Bytes)) :
    Except StoreError (List Projection) := do
  uniqueKeys (entries.map Prod.fst) (store.name++" setMany")
  let projected ← entries.mapM (project codecs store)
  uniqueKeys (projected.map Projection.translated) (store.name++" legacy-key projection")
  return projected

/-- Mirror row of a projection. -/
def mirrorOf (store : ProjectedStore) (rows : LegacyRows) (one : Projection) : Value :=
  match one.legacyValue with
  | some legacyValue => .bytes (encodeNativeEnvelope digest one.value legacyValue)
  | none =>
    .bytes (encodeNativeOnlyEnvelope digest one.value (rows.read store.legacyType one.translated))

/-- Mirror rows of a write. -/
def nativeBucket (store : ProjectedStore) (rows : LegacyRows) (projected : List Projection) : Bucket :=
  projected.map fun one => (one.key,mirrorOf digest store rows one)

/-- Legacy rows of a write. -/
def legacyBucket (projected : List Projection) : Bucket :=
  projected.filterMap fun one => one.legacyValue.map fun value => (one.translated,value)

/-- What a write writes. -/
def writeUpdates (store : ProjectedStore) (rows : LegacyRows) (projected : List Projection) :
    List (String × Bucket) :=
  (store.nativeType,nativeBucket digest store rows projected)::
    if (legacyBucket projected).isEmpty then [] else [(store.legacyType,legacyBucket projected)]

/-- Write several keys. -/
def setMany (store : ProjectedStore) (entries : List (JsString × Bytes)) (s : KeyStore) :
    Except StoreError Unit × KeyStore :=
  if entries.isEmpty then (.ok (),s)
  else
    match projectAll codecs store entries with
    | .ok projected => (.ok (),persist carry (writeUpdates digest store s.rows projected) s)
    | .error error => (.error error,s)

/-- What a deletion writes. -/
def deleteUpdates (store : ProjectedStore) (translated : List (JsString × JsString)) :
    List (String × Bucket) :=
  [(store.nativeType,translated.map fun pair => (pair.1,.null)),
    (store.legacyType,translated.map fun pair => (pair.2,.null))]

/-- Remove several keys. -/
def deleteMany (store : ProjectedStore) (requested : List JsString) (s : KeyStore) :
    Except StoreError Unit × KeyStore :=
  if requested.isEmpty then (.ok (),s)
  else
    match translateAll codecs store requested "deleteMany" with
    | .ok translated => (.ok (),persist carry (deleteUpdates store translated) s)
    | .error error => (.error error,s)

/-- A call on the adapter, or a write of a legacy row by another owner. -/
inductive Operation where
  | getMany (store : ProjectedStore) (requested : List JsString)
  | setMany (store : ProjectedStore) (entries : List (JsString × Bytes))
  | deleteMany (store : ProjectedStore) (requested : List JsString)
  | foreign (store : ProjectedStore) (translated : JsString) (value : Value)

/-- State after an operation. -/
def step (s : KeyStore) : Operation → KeyStore
  | .getMany store requested => (getMany codecs digest carry store requested s).2
  | .setMany store entries => (setMany codecs digest carry store entries s).2
  | .deleteMany store requested => (deleteMany codecs carry store requested s).2
  | .foreign store translated value =>
    ⟨putRow carry s.rows store.legacyType translated value,s.writes⟩

/-- State after operations in turn. -/
def run (s : KeyStore) (operations : List Operation) : KeyStore :=
  operations.foldl (step codecs digest carry) s

/-- What a key holds: what was last set or deleted; none before that. -/
abbrev Contents := ProjectedStore → JsString → Option (Option Bytes)

/-- Contents after an operation; one that throws changes nothing. -/
def contentsStep (contents : Contents) : Operation → Contents
  | .setMany store entries =>
    if (projectAll codecs store entries).isOk then fun other key =>
      if other = store ∧ key ∈ entries.map Prod.fst then some ((InsertionMap.find entries key))
      else contents other key
    else contents
  | .deleteMany store requested =>
    if (translateAll codecs store requested "deleteMany").isOk then fun other key =>
      if other = store ∧ key ∈ requested then some none else contents other key
    else contents
  | _ => contents

/-- Contents after operations in turn. -/
def contentsAfter (operations : List Operation) : Contents :=
  operations.foldl (contentsStep codecs) fun _ _ => none

end Adapter

end Baileyrs.LegacyProjection
