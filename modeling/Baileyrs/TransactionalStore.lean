import Baileyrs.SnapshotCodec
import Baileyrs.UriComponent

/-!
# Transactional file store

The four namespaces whose rows change together live in one snapshot file. Every
call reads the whole file, changes the rows, and publishes the file again; a call
that rejects publishes nothing. A folder without a snapshot is imported from its
record files, if the caller declared that nobody else writes them.
-/

namespace Baileyrs.AtomicStore

open JsString SnapshotRows

/-- A call of one of the three callbacks that change several rows. -/
inductive AtomicCall where
  | commitPatch (name : JsString) (state : Bytes) (removed : List JsString)
    (added : List (JsString × Bytes)) (maintainIndex : Bool)
  | touchTcTokenSenderTimestamp (jid timestamp : JsString)
  | storeReceivedTcToken (jid : JsString) (token : Bytes) (timestamp : JsString)

/-- A call that changes the store. -/
inductive StoreCall where
  | atomic (call : AtomicCall)
  | set (store : AtomicNamespace) (key : JsString) (value : Bytes)
  | delete (store : AtomicNamespace) (key : JsString)
  | setMany (store : AtomicNamespace) (entries : List (JsString × Bytes))
  | deleteMany (store : AtomicNamespace) (keys : List JsString)
  | deletePrefix (store : AtomicNamespace) (start : JsString)

/-- What a call resolves with. -/
inductive CallResult where
  | undefined
  | count (n : ℕ)
  deriving DecidableEq

variable {S R : Type*}

/-- The three callbacks over a transaction; a bad timestamp throws before it starts. -/
def atomicCallbacks (transaction : S → RowProgram Unit → Except StoreError Unit × S) :
    AtomicCall → S → Except StoreError Unit × S
  | .commitPatch name state removed added maintainIndex,s =>
    transaction s (commitPatch name state removed added maintainIndex)
  | .touchTcTokenSenderTimestamp jid timestamp,s =>
    match signedTimestamp timestamp with
    | .ok incoming => transaction s (touchTcTokenSenderTimestamp jid incoming)
    | .error error => (.error error,s)
  | .storeReceivedTcToken jid token timestamp,s =>
    match signedTimestamp timestamp with
    | .ok incoming => transaction s (storeReceivedTcToken jid token incoming)
    | .error error => (.error error,s)

/-- Outcomes of a sequence of calls, and the store after it. -/
def runCalls (call : StoreCall → S → Except StoreError CallResult × S) :
    List StoreCall → S → List (Except StoreError CallResult) × S
  | [],s => ([],s)
  | next::calls,s =>
    let outcome := call next s
    let rest := runCalls call calls outcome.2
    (outcome.1::rest.1,rest.2)

/-- Text for a message. -/
def shown (text : JsString) : String := String.ofList ((codePoints text).map Char.ofNat)

/-- Extension of a record file. -/
def recordExtension : JsString := ofString ".bin"

/-- Where the namespace of a file name ends. -/
def separatorOf (name : JsString) : Option ℕ := name.findIdx? (· = unit '-')

/-- Namespace of a record file. -/
def recordStore (name : JsString) : JsString :=
  match separatorOf name with
  | some n => name.take n
  | none => name.dropLast

/-- Encoded key of a record file. -/
def recordKey (name : JsString) : JsString :=
  (name.take (name.length-4)).drop (match separatorOf name with
    | some n => n+1
    | none => 0)

/-- A file that holds one row of a namespace kept in the snapshot. -/
def isNativeAtomicRecordFile (name : JsString) : Bool :=
  recordExtension.isSuffixOf name && nativeAtomicNamespaces.contains (recordStore name)

/-- A folder: its snapshot and the other files in it. -/
structure StoreFolder where
  /-- Path of the folder. -/
  path : String
  /-- Contents of the snapshot file. -/
  snapshot : Option Bytes
  /-- Names and contents of the other files. -/
  files : List (JsString × Bytes)

/-- A folder with record files but no snapshot needs a declared migration. -/
def requireOfflineMigration (migrate : Bool) (folder : StoreFolder) : Except StoreError Unit :=
  if folder.snapshot.isSome then .ok ()
  else if migrate = false ∧ folder.files.any (fun file => isNativeAtomicRecordFile file.1) then
    .error (.error ("existing auth files require an offline migration: stop every old writer, "++
      "back up the whole directory, then pass \x7b migrate: true \x7d ("++folder.path++")"))
  else .ok ()

/-- Import a file, if it is a record file. -/
def importRow (rows : AtomicRows Bytes) (file : JsString × Bytes) :
    Except StoreError (AtomicRows Bytes) :=
  if isNativeAtomicRecordFile file.1 then
    match UriComponent.decode (recordKey file.1) with
    | none => .error .uriError
    | some key =>
      match UriComponent.encode key with
      | none => .error .uriError
      | some encoded =>
        let row := rowKey (recordStore file.1) key
        if encoded ≠ recordKey file.1 then
          .error (.typeError ("noncanonical native auth filename: "++shown file.1))
        else if (rows.get row).isSome then
          .error (.typeError ("duplicate native auth key: "++shown file.1))
        else .ok (rows.set row file.2)
  else .ok rows

/-- Import the remaining files. -/
def importFiles : AtomicRows Bytes → List (JsString × Bytes) → Except StoreError (AtomicRows Bytes)
  | rows,[] => .ok rows
  | rows,file::rest =>
    match importRow rows file with
    | .ok rows => importFiles rows rest
    | .error error => .error error

/-- Rows of the record files. -/
def importRows (migrate : Bool) (folder : StoreFolder) : Except StoreError (AtomicRows Bytes) :=
  match requireOfflineMigration migrate folder with
  | .ok _ => importFiles InsertionMap.empty folder.files
  | .error error => .error error

/-- Rows of a folder. -/
def folderRows (migrate : Bool) (folder : StoreFolder) : Except StoreError (AtomicRows Bytes) :=
  match folder.snapshot with
  | some file => readSnapshot nativeAtomicNamespaces file
  | none => importRows migrate folder

/-- Publish rows. -/
def persist (rows : AtomicRows Bytes) (folder : StoreFolder) : StoreFolder :=
  {folder with snapshot := some (snapshotBytes rows)}

/-- Change the rows and publish them, unless reading or the change throws. -/
def transaction (migrate : Bool)
    (change : AtomicRows Bytes → Except StoreError (R × AtomicRows Bytes)) (folder : StoreFolder) :
    Except StoreError R × StoreFolder :=
  match folderRows migrate folder with
  | .error error => (.error error,folder)
  | .ok rows =>
    match change rows with
    | .error error => (.error error,folder)
    | .ok (result,rows) => (.ok result,persist rows folder)

/-- Keys and bytes of a namespace whose keys start with a text. -/
def listRows (rows : AtomicRows Bytes) (store start : JsString) : List (JsString × Bytes) :=
  rows.entries.filterMap fun row =>
    match rowNames row.1 with
    | some (namespace_,id) =>
      if namespace_ = store ∧ start.isPrefixOf id then some (id,row.2) else none
    | none => none

/-- A call on the file store. -/
def fileCall (migrate : Bool) : StoreCall → StoreFolder → Except StoreError CallResult × StoreFolder
  | .atomic call,folder =>
    let outcome := atomicCallbacks (fun folder program =>
      transaction migrate (fun rows => rowsView.run rows program) folder) call folder
    (outcome.1.map fun _ => .undefined,outcome.2)
  | .set store key value,folder =>
    transaction migrate (fun rows => .ok (.undefined,rows.set (rowKey store key) value)) folder
  | .delete store key,folder =>
    transaction migrate (fun rows => .ok (.undefined,rows.delete (rowKey store key))) folder
  | .setMany store entries,folder =>
    transaction migrate (fun rows => .ok (.undefined,
      entries.foldl (fun rows entry => rows.set (rowKey store entry.1) entry.2) rows)) folder
  | .deleteMany store keys,folder =>
    transaction migrate (fun rows => .ok (.undefined,
      keys.foldl (fun rows key => rows.delete (rowKey store key)) rows)) folder
  | .deletePrefix store start,folder =>
    transaction migrate (fun rows =>
      let entries := listRows rows store start
      .ok (.count entries.length,
        entries.foldl (fun rows entry => rows.delete (rowKey store entry.1)) rows)) folder

/-- Bytes of a row of the file store. -/
def fileGet (migrate : Bool) (folder : StoreFolder) (store : AtomicNamespace) (key : JsString) :
    Except StoreError (Option Bytes) :=
  (folderRows migrate folder).map fun rows => rows.get (rowKey store key)

/-- Requested rows of the file store that exist. -/
def fileGetMany (migrate : Bool) (folder : StoreFolder) (store : AtomicNamespace)
    (keys : List JsString) : Except StoreError (List (JsString × Bytes)) :=
  (folderRows migrate folder).map fun rows =>
    keys.filterMap fun key => (rows.get (rowKey store key)).map fun value => (key,value)

/-- Keys of a namespace of the file store. -/
def fileListKeys (migrate : Bool) (folder : StoreFolder) (store : AtomicNamespace)
    (start : Option JsString) : Except StoreError (List JsString) :=
  (folderRows migrate folder).map fun rows => (listRows rows store (start.getD [])).map Prod.fst

/-- The snapshot, if there is one, can be read. -/
def Readable (folder : StoreFolder) : Prop :=
  ∀ file, folder.snapshot = some file → ∃ rows, readSnapshot nativeAtomicNamespaces file = .ok rows

/-- A callback runs one program, or throws before its transaction. -/
theorem atomicCallbacks_cases (call : AtomicCall) :
    (∃ program, ∀ (S : Type) (transaction : S → RowProgram Unit → Except StoreError Unit × S) (s : S),
      atomicCallbacks transaction call s = transaction s program) ∨
    ∃ error, ∀ (S : Type) (transaction : S → RowProgram Unit → Except StoreError Unit × S) (s : S),
      atomicCallbacks transaction call s = (.error error,s) := by
  cases call with
  | commitPatch name state removed added maintainIndex => exact .inl ⟨_,fun _ _ _ => rfl⟩
  | touchTcTokenSenderTimestamp jid timestamp =>
    cases hincoming : signedTimestamp timestamp with
    | ok incoming => exact .inl ⟨_,fun _ _ _ => by simp only [atomicCallbacks,hincoming]; rfl⟩
    | error error => exact .inr ⟨error,fun _ _ _ => by simp only [atomicCallbacks,hincoming]⟩
  | storeReceivedTcToken jid token timestamp =>
    cases hincoming : signedTimestamp timestamp with
    | ok incoming => exact .inl ⟨_,fun _ _ _ => by simp only [atomicCallbacks,hincoming]; rfl⟩
    | error error => exact .inr ⟨error,fun _ _ _ => by simp only [atomicCallbacks,hincoming]⟩

/-- Rows keep canonical keys under a program. -/
theorem canonical_run {program : RowProgram R} {rows last : AtomicRows Bytes} {result : R}
    (h : Canonical nativeAtomicNamespaces rows) (hrun : rowsView.run rows program = .ok (result,last)) :
    Canonical nativeAtomicNamespaces last := by
  induction program generalizing rows with
  | done value =>
    cases hrun
    exact h
  | throw error => cases hrun
  | get store key next ih => exact ih _ h hrun
  | set store key value next ih => exact ih (h.set store.2 key value) hrun
  | delete store key next ih => exact ih (h.delete _) hrun

theorem canonical_setAll {rows : AtomicRows Bytes} (h : Canonical nativeAtomicNamespaces rows)
    (store : AtomicNamespace) (entries : List (JsString × Bytes)) : Canonical nativeAtomicNamespaces
      (entries.foldl (fun rows entry => rows.set (rowKey store entry.1) entry.2) rows) := by
  induction entries generalizing rows with
  | nil => exact h
  | cons entry rest ih => exact ih (h.set store.2 entry.1 entry.2)

theorem canonical_deleteAll {A : Type*} {rows : AtomicRows Bytes}
    (h : Canonical nativeAtomicNamespaces rows) (textOf : A → JsString) (items : List A) :
    Canonical nativeAtomicNamespaces (items.foldl (fun rows item => rows.delete (textOf item)) rows) := by
  induction items generalizing rows with
  | nil => exact h
  | cons item rest ih => exact ih (h.delete (textOf item))

/-- A record file is imported under a canonical key. -/
theorem canonical_importRow {rows last : AtomicRows Bytes} {file : JsString × Bytes}
    (h : Canonical nativeAtomicNamespaces rows) (himport : importRow rows file = .ok last) :
    Canonical nativeAtomicNamespaces last := by
  unfold importRow at himport
  split_ifs at himport with hrecord
  · have hstore : recordStore file.1 ∈ nativeAtomicNamespaces := by
      rw [isNativeAtomicRecordFile,Bool.and_eq_true] at hrecord
      exact List.contains_iff_mem.mp hrecord.2
    split at himport
    · cases himport
    · split at himport
      · cases himport
      · dsimp only at himport
        split_ifs at himport
        cases himport
        exact h.set hstore _ _
  · cases himport
    exact h

theorem canonical_importFiles {rows last : AtomicRows Bytes} {files : List (JsString × Bytes)}
    (h : Canonical nativeAtomicNamespaces rows) (himport : importFiles rows files = .ok last) :
    Canonical nativeAtomicNamespaces last := by
  induction files generalizing rows with
  | nil =>
    cases himport
    exact h
  | cons file rest ih =>
    unfold importFiles at himport
    split at himport
    · rename_i next hnext
      exact ih (canonical_importRow h hnext) himport
    · cases himport

/-- Rows read from a folder have canonical keys, imported or not. -/
theorem canonical_folderRows {migrate : Bool} {folder : StoreFolder} {rows : AtomicRows Bytes}
    (h : folderRows migrate folder = .ok rows) : Canonical nativeAtomicNamespaces rows := by
  unfold folderRows at h
  split at h
  · exact canonical_of_readSnapshot h
  · unfold importRows at h
    split at h
    · exact canonical_importFiles (.empty _) h
    · cases h

/-- A call publishes canonical rows or leaves the folder alone. -/
theorem transaction_cases (migrate : Bool) {change : AtomicRows Bytes → Except StoreError (R × AtomicRows Bytes)}
    (hchange : ∀ rows result last, Canonical nativeAtomicNamespaces rows →
      change rows = .ok (result,last) → Canonical nativeAtomicNamespaces last) (folder : StoreFolder) :
    (∃ result rows, Canonical nativeAtomicNamespaces rows ∧
      transaction migrate change folder = (.ok result,persist rows folder)) ∨
    ∃ error, transaction migrate change folder = (.error error,folder) := by
  unfold transaction
  cases hrows : folderRows migrate folder with
  | error error => exact .inr ⟨error,rfl⟩
  | ok rows =>
    dsimp only
    cases hlast : change rows with
    | error error => exact .inr ⟨error,rfl⟩
    | ok outcome =>
      have hcanonical := hchange rows outcome.1 outcome.2 (canonical_folderRows hrows) hlast
      exact .inl ⟨outcome.1,outcome.2,hcanonical,rfl⟩

/-- Every call publishes canonical rows or leaves the folder alone. -/
theorem fileCall_cases (migrate : Bool) (call : StoreCall) (folder : StoreFolder) :
    (∃ result rows, Canonical nativeAtomicNamespaces rows ∧
      fileCall migrate call folder = (.ok result,persist rows folder)) ∨
    ∃ error, fileCall migrate call folder = (.error error,folder) := by
  have hprogram : ∀ program : RowProgram Unit,
      (∃ result rows, Canonical nativeAtomicNamespaces rows ∧
        transaction migrate (fun rows => rowsView.run rows program) folder =
          (.ok result,persist rows folder)) ∨
      ∃ error, transaction migrate (fun rows => rowsView.run rows program) folder =
        (.error error,folder) := by
    intro program
    refine transaction_cases migrate ?_ folder
    intro rows result last hrows hrun
    exact canonical_run hrows hrun
  cases call with
  | atomic call =>
    rcases atomicCallbacks_cases call with ⟨program,hcall⟩ | ⟨error,hcall⟩
    · rcases hprogram program with ⟨result,rows,hrows,heq⟩ | ⟨error,heq⟩
      · refine .inl ⟨.undefined,rows,hrows,?_⟩
        simp only [fileCall,hcall,heq,Except.map]
      · refine .inr ⟨error,?_⟩
        simp only [fileCall,hcall,heq,Except.map]
    · refine .inr ⟨error,?_⟩
      simp only [fileCall,hcall,Except.map]
  | set store key value =>
    rw [fileCall]
    refine transaction_cases migrate ?_ folder
    intro rows result last hrows heq
    cases heq
    exact hrows.set store.2 key value
  | delete store key =>
    rw [fileCall]
    refine transaction_cases migrate ?_ folder
    intro rows result last hrows heq
    cases heq
    exact hrows.delete _
  | setMany store entries =>
    rw [fileCall]
    refine transaction_cases migrate ?_ folder
    intro rows result last hrows heq
    cases heq
    exact canonical_setAll hrows store entries
  | deleteMany store keys =>
    rw [fileCall]
    refine transaction_cases migrate ?_ folder
    intro rows result last hrows heq
    cases heq
    exact canonical_deleteAll hrows _ keys
  | deletePrefix store start =>
    rw [fileCall]
    refine transaction_cases migrate ?_ folder
    intro rows result last hrows heq
    cases heq
    exact canonical_deleteAll hrows _ _

/-- Published rows can be read. -/
theorem readable_persist {rows : AtomicRows Bytes} (h : Canonical nativeAtomicNamespaces rows)
    (folder : StoreFolder) : Readable (persist rows folder) := by
  intro file hfile
  cases hfile
  exact ⟨rows,readSnapshot_snapshotBytes h⟩

/-- A call keeps the snapshot readable. -/
theorem readable_fileCall {migrate : Bool} {folder : StoreFolder} (h : Readable folder)
    (call : StoreCall) : Readable (fileCall migrate call folder).2 := by
  rcases fileCall_cases migrate call folder with ⟨result,rows,hrows,heq⟩ | ⟨error,heq⟩
  · rw [heq]
    exact readable_persist hrows folder
  · rw [heq]
    exact h

/-- Any calls keep the snapshot readable. -/
theorem readable_runCalls {migrate : Bool} {folder : StoreFolder} (h : Readable folder)
    (calls : List StoreCall) : Readable (runCalls (fileCall migrate) calls folder).2 := by
  induction calls generalizing folder with
  | nil => exact h
  | cons call rest ih => exact ih (readable_fileCall h call)

/-- Rows are read back as they were published, a file with a duplicate or noncanonical
key is refused, and whatever the calls write can be read again. -/
theorem snapshot_codec :
    (∀ (namespaces : List JsString) (rows : AtomicRows Bytes), Canonical namespaces rows →
      readSnapshot namespaces (snapshotBytes rows) = .ok rows) ∧
    (∀ (namespaces : List JsString) (file : Bytes) (entries : List Json),
      Json.parse (readUtf8 none file) = some (.array entries) →
      (¬(listedKeys entries).Nodup ∨ ∃ text ∈ listedKeys entries,
        ¬∃ store ∈ namespaces, ∃ key, text = rowKey store key) →
      ∃ error, readSnapshot namespaces file = .error error) ∧
    (∀ (migrate : Bool) (folder : StoreFolder) (call : StoreCall) (result : CallResult),
      (fileCall migrate call folder).1 = .ok result →
      ∃ rows, Canonical nativeAtomicNamespaces rows ∧
        (fileCall migrate call folder).2 = persist rows folder) ∧
    ∀ (migrate : Bool) (folder : StoreFolder) (calls : List StoreCall), Readable folder →
      Readable (runCalls (fileCall migrate) calls folder).2 := by
  refine ⟨?_,?_,?_,?_⟩
  · intro namespaces rows hrows
    exact readSnapshot_snapshotBytes hrows
  · intro namespaces file entries hparse hdefect
    cases hread : readSnapshot namespaces file with
    | error error => exact ⟨error,rfl⟩
    | ok rows =>
      have hkeys := readSnapshot_keys hparse hread
      rw [hkeys.1] at hdefect
      rcases hdefect with hduplicate | ⟨text,htext,hcanonical⟩
      · exact absurd rows.nodup hduplicate
      · exact absurd (hkeys.2 text htext) hcanonical
  · intro migrate folder call result hok
    rcases fileCall_cases migrate call folder with ⟨_,rows,hrows,heq⟩ | ⟨error,heq⟩
    · exact ⟨rows,hrows,by rw [heq]⟩
    · rw [heq] at hok
      cases hok
  · intro migrate folder calls hreadable
    exact readable_runCalls hreadable calls

/-- A row of the token namespace survives publishing. -/
theorem snapshot_codec_token :
    readSnapshot nativeAtomicNamespaces
        (snapshotBytes (InsertionMap.empty.set (rowKey tcToken [55357]) [0,255])) =
      .ok (InsertionMap.empty.set (rowKey tcToken [55357]) [0,255]) :=
  snapshot_codec.1 _ _ (Canonical.set (.empty _) tcToken.2 [55357] [0,255])

end Baileyrs.AtomicStore
