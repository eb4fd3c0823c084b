import Baileyrs.LegacyMirrorRuns
import Baileyrs.MemoryAgreement

/-!
# Atomic operations over a legacy key store

An atomic operation loads the rows it may touch through the adapter, changes
them in memory, and writes back through the adapter what the change removed or
set, all inside one transaction of the key store. It leaves the adapter
reading the rows that the same operation leaves in the memory store.
-/

namespace Baileyrs.LegacyProjection

open JsString AtomicStore SnapshotRows LegacyValues LegacyMirror

/-- How the rows of a namespace are kept. -/
inductive Route where
  | projected (store : ProjectedStore)
  | raw (type : String)

/-- Route of a namespace. -/
def routeOf (store : AtomicNamespace) : Route :=
  if store = syncVersion then .projected .syncVersion
  else if store = tcToken then .projected .tcToken
  else if store = mutationMac then .raw "bridge-mutation-mac"
  else .raw "bridge-meta"

/-- Bytes of a raw row; a value that is not binary throws. -/
def readRaw (store : AtomicNamespace) (type : String) (rows : LegacyRows) :
    List JsString → Except StoreError (List (JsString × Bytes))
  | [] => .ok []
  | key::rest =>
    if (rows.read type key).isNullish then readRaw store type rows rest
    else
      match (rows.read type key).toBytes with
      | some bytes => do
        let others ← readRaw store type rows rest
        return (key,bytes)::others
      | none =>
        .error (.typeError (shown store++"/"++shown key++" is not stored as binary data"))

/-- A call whose effects count only when it returns. -/
def committed {R : Type} (outcome : Except StoreError R × KeyStore) : Except StoreError (R × KeyStore) :=
  outcome.1.map fun result => (result,outcome.2)

/-- Rows loaded for a change, each with whether the change replaced its bytes. -/
abbrev TrackedRows := AtomicRows (Bytes × Bool)

/-- Loaded rows as a view. -/
def trackedView : RowView TrackedRows where
  get rows key := .ok ((rows.get key).map Prod.fst)
  set rows key value := rows.set key (value,true)
  delete rows key := .ok (rows.delete key)

section Adapter

variable (codecs : Codecs) (digest : Digest) (carry : String → Value → Value)

/-- Read rows of a namespace. -/
def adapterGetMany (store : AtomicNamespace) (requested : List JsString) (s : KeyStore) :
    Except StoreError (List (JsString × Bytes) × KeyStore) :=
  match routeOf store with
  | .projected projected => committed (getMany codecs digest carry projected requested s)
  | .raw type => do
    uniqueKeys requested (shown store++" getMany")
    let results ← readRaw store type s.rows requested
    return (results,s)

/-- Write a row of a namespace. -/
def adapterSet (store : AtomicNamespace) (key : JsString) (value : Bytes) (s : KeyStore) :
    Except StoreError KeyStore :=
  match routeOf store with
  | .projected projected =>
    (committed (setMany codecs digest carry projected [(key,value)] s)).map Prod.snd
  | .raw type => .ok (persist carry [(type,[(key,.bytes value)])] s)

/-- Remove a row of a namespace. -/
def adapterDelete (store : AtomicNamespace) (key : JsString) (s : KeyStore) : Except StoreError KeyStore :=
  match routeOf store with
  | .projected projected => (committed (deleteMany codecs carry projected [key] s)).map Prod.snd
  | .raw type => .ok (persist carry [(type,[(key,.null)])] s)

/-- Load the rows a change may touch. -/
def loadRows : List (AtomicNamespace × List JsString) → TrackedRows → KeyStore →
    Except StoreError (TrackedRows × KeyStore)
  | [],rows,s => .ok (rows,s)
  | (store,requested)::rest,rows,s => do
    let (results,s) ← adapterGetMany codecs digest carry store requested s
    loadRows rest
      (results.foldl (fun rows pair => rows.set (rowKey store pair.1) (pair.2,false)) rows) s

/-- Do something to the row a key names. -/
def atRow (key : JsString) (f : AtomicNamespace → JsString → Except StoreError KeyStore) :
    Except StoreError KeyStore :=
  match rowNames key with
  | some (store,id) =>
    if h : store ∈ nativeAtomicNamespaces then f ⟨store,h⟩ id
    else .error (.rangeError ("unsupported native store namespace: "++shown store))
  | none => .error .syntaxError

/-- Remove the loaded rows a change removed. -/
def removeRows (rows : TrackedRows) (before : List JsString) (s : KeyStore) : Except StoreError KeyStore :=
  before.foldlM (fun s key =>
    if (rows.get key).isNone then atRow key fun store id => adapterDelete codecs carry store id s
    else .ok s) s

/-- Write the rows a change set. -/
def writeRows (rows : TrackedRows) (s : KeyStore) : Except StoreError KeyStore :=
  rows.entries.foldlM (fun s row =>
    if row.2.2 then atRow row.1 fun store id => adapterSet codecs digest carry store id row.2.1 s
    else .ok s) s

/-- Change rows in a transaction of the key store. -/
def atomic (stores : List (AtomicNamespace × List JsString)) (s : KeyStore) (change : RowProgram Unit) :
    Except StoreError Unit × KeyStore :=
  let result := do
    let (before,s) ← loadRows codecs digest carry stores InsertionMap.empty s
    let (_,rows) ← trackedView.run before change
    let s ← removeRows codecs carry rows before.keys s
    writeRows codecs digest carry rows s
  match result with
  | .ok last => (.ok (),last)
  | .error error => (.error error,s)

/-- Keys without their repetitions. -/
def distinctKeys (keys : List JsString) : List JsString :=
  (keys.foldl (fun found key => found.set key ()) (InsertionMap.empty : InsertionMap JsString Unit)).keys

/-- Rows a call loads. -/
def loadedRows : AtomicCall → List (AtomicNamespace × List JsString)
  | .commitPatch name _ removed added maintainIndex =>
    [(syncVersion,[name]),(mutationMac,distinctKeys (removed++added.map Prod.fst)),
      (metaRows,if maintainIndex then [ofString "mutation_mac_keys"] else [])]
  | .touchTcTokenSenderTimestamp jid _ => [(tcToken,[jid]),(metaRows,[ofString "tc_token_jids"])]
  | .storeReceivedTcToken jid _ _ => [(tcToken,[jid]),(metaRows,[ofString "tc_token_jids"])]

/-- A call on the adapter. -/
def legacyCall (call : AtomicCall) (s : KeyStore) : Except StoreError Unit × KeyStore :=
  atomicCallbacks (atomic codecs digest carry (loadedRows call)) call s

/-- A read through the adapter. -/
def legacyGet (store : AtomicNamespace) (key : JsString) (s : KeyStore) :
    Except StoreError (Option Bytes) × KeyStore :=
  match adapterGetMany codecs digest carry store [key] s with
  | .ok (results,last) => (.ok (results.head?.map Prod.snd),last)
  | .error error => (.error error,s)

end Adapter

end Baileyrs.LegacyProjection
