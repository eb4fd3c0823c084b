import Baileyrs.RollbackProof
import Baileyrs.TransactionalStore

/-!
# Offline rollback of a snapshot store

A store keeps its rows in one snapshot file. Before an older version may open the
folder again, an export writes every row to its record file, removes all other record
files, leaves a proof and archives the snapshot. An export that finds the snapshot
archived already only verifies the proof. The programs below are the store's reads,
transactions and exports; their steps may fail, and the process may crash anywhere.
-/

namespace Baileyrs.SnapshotRollback

open JsString AtomicStore SnapshotRows SnapshotFolder RollbackProof CrashPrograms Program

/-- A name the store keeps for its own files. -/
def isReserved (snapshotName name : JsString) : Bool :=
  snapshotName.isPrefixOf name || [unit '.'].isPrefixOf name

/-- Names a store uses in its folder. -/
structure SnapshotLayout where
  /-- Name of the snapshot. -/
  snapshotName : JsString
  /-- Namespaces of the rows. -/
  namespaces : List JsString
  /-- Record file of a row, if it has one. -/
  recordFile : JsString → JsString → Except StoreError (Option JsString)
  /-- Whether a file holds one row. -/
  isRecordFile : JsString → Bool
  /-- Row of a record file that is imported. -/
  importKey : AtomicRows Bytes → JsString → Except StoreError JsString
  /-- The snapshot lies in the folder. -/
  plain : snapshotName.any isPathUnit = false
  /-- Its name does not start with a dot. -/
  visible : ∃ u rest, snapshotName = u::rest ∧ u ≠ unit '.'
  /-- The store's own files are no record files. -/
  reserved : ∀ name, isReserved snapshotName name = true → isRecordFile name = false

namespace SnapshotLayout

variable (layout : SnapshotLayout) (digest : Bytes → JsString)

/-- Name of the proof. -/
def proofName : JsString := rollbackProofName layout.snapshotName

/-- Name of an archived snapshot. -/
def archive (uuid : Uuid) : JsString := archiveName layout.snapshotName uuid

/-- Name of the lock file. -/
def lockName : JsString := unit '.'::(layout.snapshotName++ofString ".lock")

/-- Temporary name of a snapshot. -/
def snapshotTmp (uuid : Uuid) : JsString :=
  layout.snapshotName++(unit '.'::(uuid.1++ofString ".tmp"))

/-- Temporary name of an exported file. -/
def rollbackTmp (uuid : Uuid) : JsString := ofString ".rollback-"++(uuid.1++ofString ".tmp")

/-- A new snapshot must not reuse the proof of an older rollback. -/
def clearRollbackProof : Io Unit := do
  let removed ← catching (do
    unlink layout.proofName
    return true) (fun error => match error with
      | .missing => ret false
      | .other => throw .other)
  if removed then syncDir else ret ()

/-- Check that the archive a proof names is the one it was written for. -/
def verifyRollbackProof : Io Unit :=
  catching (do
    let text ← readFile layout.proofName
    match readProof layout.snapshotName text with
    | none => throw .other
    | some (archive,sha256) => do
      let bytes ← readFile archive
      if digest bytes = sha256 then ret () else throw .other) (fun _ => throw .other)

/-- Whether a check for a file finds it. -/
def found (check : Io Unit) : Io Bool :=
  catching (do
    check
    return true) (fun error => match error with
      | .missing => ret false
      | .other => throw .other)

/-- Record files without a snapshot need a declared migration. -/
def requireOfflineMigration (migrate : Bool) : Io Unit := do
  let migrated ← found (access layout.snapshotName)
  if migrated || migrate then ret ()
  else do
    let names ← readdir
    if names.any layout.isRecordFile then throw .other else ret ()

/-- Import the remaining files. -/
def importFiles : AtomicRows Bytes → List JsString → Io (AtomicRows Bytes)
  | rows,[] => ret rows
  | rows,name::names =>
    if layout.isRecordFile name then
      match layout.importKey rows name with
      | .error _ => throw .other
      | .ok row => do
        let bytes ← readFile name
        importFiles (rows.set row bytes) names
    else importFiles rows names

/-- Rows of the record files. -/
def importRows (migrate : Bool) : Io (AtomicRows Bytes) := do
  layout.requireOfflineMigration migrate
  let names ← readdir
  layout.importFiles InsertionMap.empty names

/-- Rows of the snapshot, or of what is imported without one. -/
def readRows (importRows : Io (AtomicRows Bytes)) : Io (AtomicRows Bytes) := do
  let read ← catching (do
    let bytes ← readFile layout.snapshotName
    match readSnapshot layout.namespaces bytes with
    | .ok rows => ret (some rows)
    | .error _ => throw .other) (fun error => match error with
      | .missing => ret none
      | .other => throw .other)
  match read with
  | some rows => ret rows
  | none => importRows

/-- Publish a snapshot. -/
def persist (rows : AtomicRows Bytes) : Io Unit := do
  layout.clearRollbackProof
  let uuid ← randomUUID
  replaceFile (layout.snapshotTmp uuid) layout.snapshotName (snapshotBytes rows) syncDir

/-- Read the rows under the lock. -/
def read (migrate : Bool) : Io Unit :=
  withProcessFileLock layout.lockName (do
    let _ ← layout.readRows (layout.importRows migrate)
    ret ())

/-- Change the rows under the lock; the change says whether they are persisted. -/
def transaction (migrate : Bool)
    (change : AtomicRows Bytes → Except StoreError (AtomicRows Bytes × Bool)) : Io Unit :=
  withProcessFileLock layout.lockName (do
    let rows ← layout.readRows (layout.importRows migrate)
    match change rows with
    | .error _ => throw .other
    | .ok (rows,shouldPersist) => if shouldPersist then layout.persist rows else ret ())

/-- Replace an exported file. -/
def publish (name : JsString) (bytes : Bytes) : Io Unit := do
  let uuid ← randomUUID
  replaceFile (rollbackTmp uuid) name bytes (ret ())

/-- Record files of the remaining rows. -/
def recordFiles : InsertionMap JsString Bytes → List (JsString × Bytes) →
    Except StoreError (InsertionMap JsString Bytes)
  | files,[] => .ok files
  | files,(key,bytes)::rows =>
    match rowNames key with
    | none => .error .syntaxError
    | some (store,id) =>
      match layout.recordFile store id with
      | .error error => .error error
      | .ok none => recordFiles files rows
      | .ok (some name) =>
        if name.any isPathUnit || !layout.isRecordFile name || (files.get name).isSome then
          .error (.error "invalid or duplicate auth rollback filename")
        else recordFiles (files.set name bytes) rows

/-- Export rows, prove it, and archive the snapshot. -/
def exportRows (rows : AtomicRows Bytes) : Io Unit :=
  match layout.recordFiles InsertionMap.empty rows.entries with
  | .error _ => throw .other
  | .ok files => do
    forEach files.entries fun file => publish file.1 file.2
    let names ← readdir
    forEach names fun name =>
      if layout.isRecordFile name && (files.get name).isNone then unlink name else ret ()
    syncDir
    let uuid ← randomUUID
    let bytes ← readFile layout.snapshotName
    publish layout.proofName (proofBytes (layout.archive uuid) (digest bytes))
    syncDir
    rename layout.snapshotName (layout.archive uuid)
    syncDir

/-- Hand the folder back to an older version. -/
def exportAuthSnapshot : Io Unit := do
  let present ← found (do
    let _ ← readFile layout.snapshotName
    return ())
  if present then
    withProcessFileLock layout.lockName (do
      let rows ← layout.readRows (throw .other)
      layout.exportRows digest rows)
  else
    withProcessFileLock layout.lockName (do
      layout.verifyRollbackProof digest
      syncDir)

end SnapshotLayout

/-- What is attempted on a folder. -/
inductive Attempt where
  | openStore (migrate : Bool)
  | read (migrate : Bool)
  | transaction (migrate : Bool)
    (change : AtomicRows Bytes → Except StoreError (AtomicRows Bytes × Bool))
  | exportAuthSnapshot
  | elsewhere (name : JsString) (contents : Option Bytes)
  | lose

/-- Change a file that is neither a record file nor one of the store's own. -/
def elsewhere (layout : SnapshotLayout) (name : JsString) (contents : Option Bytes) : Io Unit :=
  if isReserved layout.snapshotName name || layout.isRecordFile name then throw .other
  else perform fun w _ => (match contents with
    | some bytes => write w name bytes
    | none => remove w name,.ok ())

/-- Something outside the store removes the snapshot. -/
def lose (layout : SnapshotLayout) : Io Unit :=
  perform fun w _ => ({remove w layout.snapshotName with lost := true},.ok ())

/-- Program of an attempt. -/
def attempt (layout : SnapshotLayout) (digest : Bytes → JsString) : Attempt → Io Unit
  | .openStore migrate => layout.requireOfflineMigration migrate
  | .read migrate => layout.read migrate
  | .transaction migrate change => layout.transaction migrate change
  | .exportAuthSnapshot => layout.exportAuthSnapshot digest
  | .elsewhere name contents => elsewhere layout name contents
  | .lose => lose layout

/-- The folder after attempts, however each of them ended. -/
def runAttempts (layout : SnapshotLayout) (digest : Bytes → JsString) :
    World → List (Attempt × List Answer) → World
  | w,[] => w
  | w,(next,answers)::rest =>
    runAttempts layout digest (attempt layout digest next w answers).state rest

/-- A folder as the store finds it. -/
def started (files : InsertionMap JsString Bytes) : World := ⟨files,files.get,false⟩

/-- Name of the native snapshot. -/
def nativeSnapshotName : JsString := ofString "bridge-atomic-v1.json"

/-- Row of a record file of the native store. -/
def nativeImportKey (rows : AtomicRows Bytes) (name : JsString) : Except StoreError JsString :=
  match UriComponent.decode (recordKey name) with
  | none => .error .uriError
  | some key =>
    match UriComponent.encode key with
    | none => .error .uriError
    | some encoded =>
      let row := rowKey (recordStore name) key
      if encoded ≠ recordKey name then
        .error (.typeError ("noncanonical native auth filename: "++shown name))
      else if (rows.get row).isSome then
        .error (.typeError ("duplicate native auth key: "++shown name))
      else .ok row

/-- Record file of a row of the native store. -/
def nativeRecordFile (store id : JsString) : Except StoreError (Option JsString) :=
  match UriComponent.encode id with
  | none => .error .uriError
  | some encoded => .ok (some (store++unit '-'::(encoded++recordExtension)))

/-- A name with a leading dot belongs to no namespace. -/
theorem native_hidden (rest : JsString) : nativeAtomicNamespaces.contains (recordStore (unit '.'::rest)) = false := by
  have hhead : recordStore (unit '.'::rest) = [] ∨
      ∃ tail, recordStore (unit '.'::rest) = unit '.'::tail := by
    have hne : decide (unit '.' = unit '-') = false := by decide
    cases hrest : rest.findIdx? (· = unit '-') with
    | none =>
      have hstore : recordStore (unit '.'::rest) = (unit '.'::rest).dropLast := by
        rw [recordStore,separatorOf,List.findIdx?_cons,hne,hrest]
        rfl
      rw [hstore]
      cases rest with
      | nil => exact .inl rfl
      | cons u tail => exact .inr ⟨(u::tail).dropLast,rfl⟩
    | some n =>
      have hstore : recordStore (unit '.'::rest) = unit '.'::rest.take n := by
        rw [recordStore,separatorOf,List.findIdx?_cons,hne,hrest]
        rfl
      exact .inr ⟨rest.take n,hstore⟩
  rcases hhead with hnil | ⟨tail,htail⟩
  · rw [hnil]
    decide
  · rw [htail]
    rfl

/-- The native store. -/
def nativeLayout : SnapshotLayout where
  snapshotName := nativeSnapshotName
  namespaces := nativeAtomicNamespaces
  recordFile := nativeRecordFile
  isRecordFile := isNativeAtomicRecordFile
  importKey := nativeImportKey
  plain := by decide
  visible := ⟨unit 'b',ofString "ridge-atomic-v1.json",rfl,by decide⟩
  reserved := by
    intro name hname
    have hstore : nativeAtomicNamespaces.contains (recordStore name) = false := by
      rcases Bool.or_eq_true_iff.mp hname with hsnapshot | hdot
      · rcases List.isPrefixOf_iff_prefix.mp hsnapshot with ⟨tail,rfl⟩
        rfl
      · rcases List.isPrefixOf_iff_prefix.mp hdot with ⟨tail,rfl⟩
        exact native_hidden tail
    rw [isNativeAtomicRecordFile,hstore,Bool.and_false]

end Baileyrs.SnapshotRollback
