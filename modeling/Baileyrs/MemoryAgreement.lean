import Baileyrs.MemoryStore

/-!
# Memory store and file store agree

One relation ties the maps of the memory store to the rows of the snapshot: the
map of each namespace lists the rows that name it. Every operation keeps it, and a
program of reads and writes behaves alike over both views, so the two stores
answer every sequence of calls alike.
-/

namespace Baileyrs.AtomicStore

open JsString SnapshotRows

/-- The maps list the rows by namespace. -/
structure Agrees (stores : MemoryStores) (rows : AtomicRows Bytes) : Prop where
  /-- The rows have canonical keys. -/
  canonical : Canonical nativeAtomicNamespaces rows
  /-- The map of a namespace lists the rows that name it. -/
  listed : ∀ store, (bucketForWrite stores store).entries = rows.entries.filterMap (rowOf store)

theorem bucketForWrite_set (stores : MemoryStores) (store other : JsString) (bucket : StoreBucket) :
    bucketForWrite (stores.set store bucket) other = if store = other then bucket else bucketForWrite stores other := by
  rw [bucketForWrite,InsertionMap.get_set]
  split_ifs <;> rfl

/-- Dropping an empty map changes no rows. -/
theorem bucketForWrite_deleteEmptyBucket (stores : MemoryStores) (store other : JsString)
    (bucket : StoreBucket) : (bucketForWrite (deleteEmptyBucket stores store bucket) other).entries =
      (bucketForWrite (stores.set store bucket) other).entries := by
  unfold deleteEmptyBucket
  split_ifs with hsize
  · rw [bucketForWrite_set,bucketForWrite,InsertionMap.get_delete]
    by_cases hother : store = other
    · rw [if_pos hother,if_pos hother,List.eq_nil_of_length_eq_zero hsize]
      rfl
    · rw [if_neg hother,if_neg hother,bucketForWrite]
  · rfl

/-- The relation reads the maps only. -/
theorem Agrees.congr {stores stores' : MemoryStores} {rows : AtomicRows Bytes}
    (h : Agrees stores rows)
    (heq : ∀ store, (bucketForWrite stores' store).entries = (bucketForWrite stores store).entries) :
    Agrees stores' rows where
  canonical := h.canonical
  listed store := (heq store).trans (h.listed store)

/-- A namespace without a map agrees as one with an empty map. -/
theorem Agrees.bucketForWrite {stores : MemoryStores} {rows : AtomicRows Bytes}
    (h : Agrees stores rows) (store : JsString) : Agrees (stores.set store (bucketForWrite stores store)) rows := by
  refine h.congr ?_
  intro other
  rw [bucketForWrite_set]
  split_ifs with heq
  · rw [heq]
  · rfl

/-- Every row has the key of some namespace. -/
theorem Agrees.named {stores : MemoryStores} {rows : AtomicRows Bytes} (h : Agrees stores rows) :
    ∀ row ∈ rows.entries, ∃ store key, row.1 = rowKey store key := by
  intro row hrow
  have hkey := h.canonical row.1 (List.mem_map.mpr ⟨row,hrow,rfl⟩)
  rcases hkey with ⟨store,_,key,heq⟩
  exact ⟨store,key,heq⟩

/-- Both stores write a row alike. -/
theorem Agrees.set {stores : MemoryStores} {rows : AtomicRows Bytes} {bucket : StoreBucket}
    (store : AtomicNamespace) (h : Agrees (stores.set store bucket) rows) (key : JsString)
    (value : Bytes) :
    Agrees (stores.set store (bucket.set key value)) (rows.set (rowKey store key) value) where
  canonical := h.canonical.set store.2 key value
  listed other := by
    have hput := filterMap_put h.named other store key value
    have hlisted := h.listed other
    rw [bucketForWrite_set] at hlisted ⊢
    refine Eq.trans ?_ hput.symm
    split_ifs at hlisted ⊢ with heq
    · rw [← hlisted]
      rfl
    · exact hlisted

/-- Both stores remove a row alike. -/
theorem Agrees.delete {stores : MemoryStores} {rows : AtomicRows Bytes} {bucket : StoreBucket}
    (store : AtomicNamespace) (h : Agrees (stores.set store bucket) rows) (key : JsString) :
    Agrees (stores.set store (bucket.delete key)) (rows.delete (rowKey store key)) where
  canonical := h.canonical.delete _
  listed other := by
    have hfilter := filterMap_filter h.named other store key
    have hlisted := h.listed other
    rw [bucketForWrite_set] at hlisted ⊢
    refine Eq.trans ?_ hfilter.symm
    split_ifs at hlisted ⊢ with heq
    · rw [← hlisted]
      rfl
    · exact hlisted

/-- Writing several rows of one namespace. -/
theorem Agrees.setAll {stores : MemoryStores} {rows : AtomicRows Bytes} {bucket : StoreBucket}
    (store : AtomicNamespace) (h : Agrees (stores.set store bucket) rows) (entries : List (JsString × Bytes)) : Agrees
      (stores.set store (entries.foldl (fun bucket entry => bucket.set entry.1 entry.2) bucket))
      (entries.foldl (fun rows entry => rows.set (rowKey store entry.1) entry.2) rows) := by
  induction entries generalizing bucket rows with
  | nil => exact h
  | cons entry rest ih => exact ih (Agrees.set store h entry.1 entry.2)

/-- Removing several rows of one namespace. -/
theorem Agrees.deleteAll {stores : MemoryStores} {rows : AtomicRows Bytes} {bucket : StoreBucket}
    (store : AtomicNamespace) (h : Agrees (stores.set store bucket) rows) (keys : List JsString) :
    Agrees (stores.set store (keys.foldl (fun bucket key => bucket.delete key) bucket))
      (keys.foldl (fun rows key => rows.delete (rowKey store key)) rows) := by
  induction keys generalizing bucket rows with
  | nil => exact h
  | cons key rest ih => exact ih (Agrees.delete store h key)

/-- Storing a map that may have become empty. -/
theorem Agrees.deleteEmptyBucket {stores : MemoryStores} {rows : AtomicRows Bytes}
    {bucket : StoreBucket} {store : JsString} (h : Agrees (stores.set store bucket) rows) :
    Agrees (deleteEmptyBucket stores store bucket) rows :=
  h.congr fun other => bucketForWrite_deleteEmptyBucket stores store other bucket

theorem Agrees.memorySet {stores : MemoryStores} {rows : AtomicRows Bytes}
    (store : AtomicNamespace) (h : Agrees stores rows) (key : JsString) (value : Bytes) :
    Agrees (memorySet stores store key value) (rows.set (rowKey store key) value) :=
  Agrees.set store (h.bucketForWrite store) key value

/-- Keys no row has can be removed. -/
theorem foldl_delete_empty (keys : List JsString) :
    (keys.foldl (fun bucket key => bucket.delete key) (InsertionMap.empty : StoreBucket)) = InsertionMap.empty := by
  induction keys with
  | nil => rfl
  | cons key rest ih => exact ih

/-- Removing keys of a namespace, with or without a map. -/
theorem Agrees.deleteKeys {stores : MemoryStores} {rows : AtomicRows Bytes}
    (store : AtomicNamespace) (h : Agrees stores rows) (keys : List JsString) :
    Agrees
      (match stores.get store with
        | none => stores
        | some bucket => AtomicStore.deleteEmptyBucket stores store
          (keys.foldl (fun bucket key => bucket.delete key) bucket))
      (keys.foldl (fun rows key => rows.delete (rowKey store key)) rows) := by
  have hall := Agrees.deleteAll store (h.bucketForWrite store) keys
  cases hbucket : stores.get store with
  | none =>
    have hempty : AtomicStore.bucketForWrite stores store = InsertionMap.empty := by
      rw [AtomicStore.bucketForWrite,hbucket]
      rfl
    rw [hempty,foldl_delete_empty] at hall
    refine hall.congr ?_
    intro other
    rw [bucketForWrite_set]
    split_ifs with heq
    · rw [← heq,hempty]
    · rfl
  | some bucket =>
    have hsome : AtomicStore.bucketForWrite stores store = bucket := by
      rw [AtomicStore.bucketForWrite,hbucket]
      rfl
    rw [hsome] at hall
    exact hall.deleteEmptyBucket

theorem Agrees.memoryDelete {stores : MemoryStores} {rows : AtomicRows Bytes}
    (store : AtomicNamespace) (h : Agrees stores rows) (key : JsString) :
    Agrees (memoryDelete stores store key) (rows.delete (rowKey store key)) := by
  have hkeys := h.deleteKeys store [key]
  unfold AtomicStore.memoryDelete
  cases hbucket : stores.get store with
  | none =>
    rw [hbucket] at hkeys
    exact hkeys
  | some bucket =>
    rw [hbucket] at hkeys
    exact hkeys

/-- Both stores read a row alike. -/
theorem Agrees.get {stores : MemoryStores} {rows : AtomicRows Bytes} (h : Agrees stores rows)
    (store key : JsString) : memoryGet stores store key = rows.get (rowKey store key) := by
  have hfind := find_filterMap h.named store key
  rw [← h.listed store] at hfind
  rw [InsertionMap.get,← hfind,memoryGet,AtomicStore.bucketForWrite]
  cases stores.get store with
  | none => rfl
  | some bucket => rfl

/-- Both stores read several rows alike. -/
theorem Agrees.getMany {stores : MemoryStores} {rows : AtomicRows Bytes} (h : Agrees stores rows)
    (store : JsString) (keys : List JsString) : memoryGetMany stores store keys =
      keys.filterMap fun key => (rows.get (rowKey store key)).map fun value => (key,value) := by
  have hget : ∀ key, rows.get (rowKey store key) =
      (stores.get store).bind fun bucket => bucket.get key := by
    intro key
    rw [← h.get,memoryGet]
  rw [memoryGetMany]
  simp only [hget]
  cases stores.get store with
  | none => simp
  | some bucket => rfl

/-- Keys of the map of a namespace. -/
theorem Agrees.keys {stores : MemoryStores} {rows : AtomicRows Bytes} (h : Agrees stores rows)
    (store start : JsString) : (listRows rows store start).map Prod.fst =
      (AtomicStore.bucketForWrite stores store).keys.filter start.isPrefixOf := by
  rw [listRows_eq,← h.listed store,InsertionMap.keys,List.filter_map]
  rfl

theorem agrees_empty : Agrees InsertionMap.empty InsertionMap.empty where
  canonical := .empty _
  listed _ := rfl

/-- A change in progress agrees with the rows it stands for. -/
structure StagedAgrees (change : StagedChange) (rows : AtomicRows Bytes) : Prop where
  /-- Replaying the writes gives these rows. -/
  replayed : Agrees (change.writes.foldl replayWrite change.stores) rows
  /-- Reading sees the staged writes. -/
  reads : ∀ store key, change.read (rowKey store key) = .ok (rows.get (rowKey store key))

theorem StagedAgrees.start {stores : MemoryStores} {rows : AtomicRows Bytes}
    (h : Agrees stores rows) : StagedAgrees ⟨stores,InsertionMap.empty,[]⟩ rows where
  replayed := h
  reads store key := by
    rw [StagedChange.read]
    dsimp only
    rw [InsertionMap.get_empty,rowNames_rowKey]
    dsimp only
    rw [h.get]

/-- Reading a change after staging a row. -/
theorem read_stage (change : StagedChange) (store key other id : JsString) (value : Option Bytes) :
    (change.stage (rowKey store key) value).read (rowKey other id) =
      if rowKey store key = rowKey other id then .ok value else change.read (rowKey other id) := by
  rw [StagedChange.read,StagedChange.stage]
  dsimp only
  rw [InsertionMap.get_set]
  split_ifs
  · rfl
  · rfl

theorem StagedAgrees.set {change : StagedChange} {rows : AtomicRows Bytes}
    (store : AtomicNamespace) (h : StagedAgrees change rows) (key : JsString) (value : Bytes) :
    StagedAgrees (change.stage (rowKey store key) (some value))
      (rows.set (rowKey store key) value) where
  replayed := by
    rw [StagedChange.stage]
    dsimp only
    rw [List.foldl_append,List.foldl_cons,List.foldl_nil]
    unfold replayWrite
    dsimp only
    rw [rowNames_rowKey]
    exact h.replayed.memorySet store key value
  reads other id := by
    rw [read_stage,InsertionMap.get_set,h.reads]
    split_ifs <;> rfl

theorem StagedAgrees.delete {change : StagedChange} {rows : AtomicRows Bytes}
    (store : AtomicNamespace) (h : StagedAgrees change rows) (key : JsString) :
    StagedAgrees (change.stage (rowKey store key) none) (rows.delete (rowKey store key)) where
  replayed := by
    rw [StagedChange.stage]
    dsimp only
    rw [List.foldl_append,List.foldl_cons,List.foldl_nil]
    unfold replayWrite
    dsimp only
    rw [rowNames_rowKey]
    exact h.replayed.memoryDelete store key
  reads other id := by
    rw [read_stage,InsertionMap.get_delete,h.reads]
    split_ifs <;> rfl

/-- A program behaves alike over both views. -/
theorem StagedAgrees.run {R : Type} {program : RowProgram R} {change : StagedChange}
    {rows : AtomicRows Bytes} (h : StagedAgrees change rows) :
    (∃ error, stagedView.run change program = .error error ∧ rowsView.run rows program = .error error) ∨
    ∃ result last lastRows, stagedView.run change program = .ok (result,last) ∧
      rowsView.run rows program = .ok (result,lastRows) ∧ StagedAgrees last lastRows ∧ last.stores = change.stores := by
  induction program generalizing change rows with
  | done value => exact .inr ⟨value,change,rows,rfl,rfl,h,rfl⟩
  | throw error => exact .inl ⟨error,rfl,rfl⟩
  | get store key next ih =>
    have hread : stagedView.get change (rowKey store key) = .ok (rows.get (rowKey store key)) :=
      h.reads store key
    rw [RowView.run,hread,RowView.run]
    exact ih _ h
  | set store key value next ih =>
    rw [RowView.run,RowView.run]
    exact ih (h.set store key value)
  | delete store key next ih =>
    have hdelete : stagedView.delete change (rowKey store key) =
        .ok (change.stage (rowKey store key) none) := by
      rw [stagedView]
      dsimp only
      rw [h.reads]
      rfl
    rw [RowView.run,hdelete,RowView.run]
    exact ih (h.delete store key)

/-- The maps agree with the rows the folder holds. -/
def Corresponds (migrate : Bool) (stores : MemoryStores) (folder : StoreFolder) : Prop :=
  ∃ rows, folderRows migrate folder = .ok rows ∧ Agrees stores rows

/-- Publishing rows the maps agree with. -/
theorem Agrees.persist {stores : MemoryStores} {rows : AtomicRows Bytes} (h : Agrees stores rows)
    (migrate : Bool) (folder : StoreFolder) : Corresponds migrate stores (persist rows folder) :=
  ⟨rows,readSnapshot_snapshotBytes h.canonical,h⟩

/-- Two outcomes are alike, and a rejection changed neither store. -/
structure SameOutcome (migrate : Bool) (folder : StoreFolder) (stores : MemoryStores)
    {R : Type} (file : Except StoreError R × StoreFolder)
    (memory : Except StoreError R × MemoryStores) : Prop where
  /-- Both resolve with one result or reject with one error. -/
  outcome : file.1 = memory.1
  /-- The stores still correspond. -/
  after : Corresponds migrate memory.2 file.2
  /-- A rejection changed neither. -/
  rejected : ∀ error, file.1 = .error error → file.2 = folder ∧ memory.2 = stores

/-- A change that cannot throw. -/
theorem SameOutcome.change {migrate : Bool} {folder : StoreFolder} {stores last : MemoryStores}
    {rows : AtomicRows Bytes} {result : CallResult} {change : AtomicRows Bytes → AtomicRows Bytes}
    (hrows : folderRows migrate folder = .ok rows) (h : Agrees last (change rows)) : SameOutcome migrate folder stores
      (transaction migrate (fun rows => .ok (result,change rows)) folder) (.ok result,last) := by
  have htransaction : transaction migrate (fun rows => .ok (result,change rows)) folder =
      (.ok result,AtomicStore.persist (change rows) folder) := by
    unfold transaction
    rw [hrows]
  rw [htransaction]
  refine ⟨rfl,h.persist migrate folder,?_⟩
  intro error herror
  cases herror

/-- A transaction of the memory store runs a program as the rows do. -/
theorem memoryTransaction_cases {stores : MemoryStores} {rows : AtomicRows Bytes}
    (h : Agrees stores rows) (program : RowProgram Unit) : (∃ error, rowsView.run rows program = .error error ∧
      memoryTransaction stores program = (.error error,stores)) ∨
    ∃ last lastRows, rowsView.run rows program = .ok ((),lastRows) ∧
      memoryTransaction stores program = (.ok (),last) ∧ Agrees last lastRows := by
  have hrun : (∃ error, stagedView.run ⟨stores,InsertionMap.empty,[]⟩ program = .error error ∧
      rowsView.run rows program = .error error) ∨
      ∃ result last lastRows,
        stagedView.run ⟨stores,InsertionMap.empty,[]⟩ program = .ok (result,last) ∧
        rowsView.run rows program = .ok (result,lastRows) ∧ StagedAgrees last lastRows ∧
        last.stores = stores := (StagedAgrees.start h).run
  unfold memoryTransaction
  rcases hrun with ⟨error,hmemory,hrows⟩ | ⟨result,last,lastRows,hmemory,hrows,hlast,hstores⟩
  · rw [hmemory]
    exact .inl ⟨error,hrows,rfl⟩
  · have hreplayed := hlast.replayed
    rw [hstores] at hreplayed
    rw [hmemory]
    exact .inr ⟨_,lastRows,hrows,rfl,hreplayed⟩

/-- A program run by both transactions. -/
theorem SameOutcome.program {migrate : Bool} {folder : StoreFolder} {stores : MemoryStores}
    {rows : AtomicRows Bytes} (hrows : folderRows migrate folder = .ok rows)
    (h : Agrees stores rows) (program : RowProgram Unit) : SameOutcome migrate folder stores
      (transaction migrate (fun rows => rowsView.run rows program) folder) (memoryTransaction stores program) := by
  unfold transaction
  rw [hrows]
  dsimp only
  rcases memoryTransaction_cases h program with ⟨error,hfile,hmemory⟩ | ⟨last,lastRows,hfile,hmemory,hlast⟩
  · rw [hmemory,hfile]
    exact ⟨rfl,⟨rows,hrows,h⟩,fun _ _ => ⟨rfl,rfl⟩⟩
  · rw [hmemory,hfile]
    refine ⟨rfl,hlast.persist migrate folder,?_⟩
    intro error herror
    cases herror

/-- Every call has the same outcome on both stores. -/
theorem sameOutcome_call {migrate : Bool} {folder : StoreFolder} {stores : MemoryStores}
    (h : Corresponds migrate stores folder) (call : StoreCall) :
    SameOutcome migrate folder stores (fileCall migrate call folder) (memoryCall call stores) := by
  have hcorresponds := h
  rcases h with ⟨rows,hrows,hagrees⟩
  cases call with
  | atomic call =>
    rcases atomicCallbacks_cases call with ⟨program,hcall⟩ | ⟨error,hcall⟩
    · have hprogram := SameOutcome.program hrows hagrees program
      simp only [fileCall,memoryCall,hcall]
      refine ⟨by rw [hprogram.outcome],hprogram.after,?_⟩
      intro error herror
      cases hfile : (transaction migrate (fun rows => rowsView.run rows program) folder).1 with
      | ok result =>
        rw [hfile] at herror
        cases herror
      | error thrown => exact hprogram.rejected thrown hfile
    · simp only [fileCall,memoryCall,hcall]
      exact ⟨rfl,hcorresponds,fun _ _ => ⟨rfl,rfl⟩⟩
  | set store key value =>
    exact SameOutcome.change hrows (hagrees.memorySet store key value)
  | delete store key =>
    exact SameOutcome.change hrows (hagrees.memoryDelete store key)
  | setMany store entries =>
    rw [fileCall,memoryCall]
    split_ifs with hlength
    · refine SameOutcome.change hrows ?_
      rw [List.eq_nil_of_length_eq_zero hlength]
      exact hagrees
    · exact SameOutcome.change hrows (Agrees.setAll store (hagrees.bucketForWrite store) entries)
  | deleteMany store keys =>
    exact SameOutcome.change hrows (hagrees.deleteKeys store keys)
  | deletePrefix store start =>
    have hkeys := hagrees.keys store start
    have hlast := hagrees.deleteKeys store ((listRows rows store start).map Prod.fst)
    have hlength : (listRows rows store start).length =
        ((listRows rows store start).map Prod.fst).length := (List.length_map _).symm
    have hfile : fileCall migrate (.deletePrefix store start) folder =
        (.ok (.count (listRows rows store start).length),AtomicStore.persist
          (((listRows rows store start).map Prod.fst).foldl
            (fun rows key => rows.delete (rowKey store key)) rows) folder) := by
      rw [fileCall,transaction,hrows,List.foldl_map]
    rw [hfile,memoryCall]
    cases hbucket : stores.get store with
    | none =>
      have hempty : AtomicStore.bucketForWrite stores store = InsertionMap.empty := by
        rw [AtomicStore.bucketForWrite,hbucket]
        rfl
      rw [hempty] at hkeys
      rw [hbucket] at hlast
      refine ⟨?_,hlast.persist migrate folder,fun _ herror => by cases herror⟩
      rw [hlength,hkeys]
      rfl
    | some bucket =>
      have hsome : AtomicStore.bucketForWrite stores store = bucket := by
        rw [AtomicStore.bucketForWrite,hbucket]
        rfl
      rw [hsome] at hkeys
      rw [hbucket,hkeys] at hlast
      rw [hlength,hkeys]
      exact ⟨rfl,hlast.persist migrate folder,fun _ herror => by cases herror⟩

/-- Any calls have the same outcomes on both stores. -/
theorem runCalls_agree {migrate : Bool} {folder : StoreFolder} {stores : MemoryStores}
    (h : Corresponds migrate stores folder) (calls : List StoreCall) :
    (runCalls (fileCall migrate) calls folder).1 = (runCalls memoryCall calls stores).1 ∧
      Corresponds migrate (runCalls memoryCall calls stores).2 (runCalls (fileCall migrate) calls folder).2 := by
  induction calls generalizing folder stores with
  | nil => exact ⟨rfl,h⟩
  | cons call rest ih =>
    have hcall := sameOutcome_call h call
    have hrest := ih hcall.after
    rw [runCalls,runCalls]
    dsimp only
    rw [hcall.outcome,hrest.1]
    exact ⟨rfl,hrest.2⟩

/-- Both stores answer every read alike. -/
theorem Corresponds.reads {migrate : Bool} {stores : MemoryStores} {folder : StoreFolder}
    (h : Corresponds migrate stores folder) (store : AtomicNamespace) :
    (∀ key, fileGet migrate folder store key = .ok (memoryGet stores store key)) ∧
    (∀ keys, fileGetMany migrate folder store keys = .ok (memoryGetMany stores store keys)) ∧
    ∀ start, fileListKeys migrate folder store start = .ok (memoryListKeys stores store start) := by
  rcases h with ⟨rows,hrows,h⟩
  refine ⟨?_,?_,?_⟩
  · intro key
    rw [fileGet,hrows,h.get]
    rfl
  · intro keys
    rw [fileGetMany,hrows,h.getMany]
    rfl
  · intro start
    have hkeys := h.keys store (start.getD [])
    rw [fileListKeys,hrows,memoryListKeys]
    dsimp only [Except.map]
    rw [hkeys,AtomicStore.bucketForWrite]
    cases stores.get store with
    | none => rfl
    | some bucket =>
      cases start with
      | none => simp
      | some start =>
        cases start with
        | nil => simp
        | cons u rest => rfl

/-- An empty folder holds no rows. -/
theorem corresponds_empty {migrate : Bool} {folder : StoreFolder} (hsnapshot : folder.snapshot = none)
    (hfiles : ∀ file ∈ folder.files, isNativeAtomicRecordFile file.1 = false) :
    Corresponds migrate InsertionMap.empty folder := by
  have hmigration : requireOfflineMigration migrate folder = .ok () := by
    unfold requireOfflineMigration
    rw [hsnapshot,if_neg (by simp),if_neg]
    rintro ⟨_,hany⟩
    rw [List.any_eq_true] at hany
    rcases hany with ⟨file,hfile,hrecord⟩
    rw [hfiles file hfile] at hrecord
    cases hrecord
  have himport : ∀ files : List (JsString × Bytes),
      (∀ file ∈ files, isNativeAtomicRecordFile file.1 = false) →
      importFiles InsertionMap.empty files = .ok InsertionMap.empty := by
    intro files hnone
    induction files with
    | nil => rfl
    | cons file rest ih =>
      have hfile := hnone file List.mem_cons_self
      have hrow : importRow InsertionMap.empty file = .ok InsertionMap.empty := by
        rw [importRow,hfile]
        rfl
      rw [importFiles,hrow]
      exact ih fun other hother => hnone other (List.mem_cons_of_mem _ hother)
  refine ⟨InsertionMap.empty,?_,agrees_empty⟩
  rw [folderRows,hsnapshot]
  dsimp only
  rw [importRows,hmigration]
  exact himport folder.files hfiles

/-- Starting empty, the memory store and the file store answer any calls alike, a
rejected call changes neither, and every read gives the same result from both. -/
theorem memory_and_file_agree (migrate : Bool) (folder : StoreFolder)
    (hsnapshot : folder.snapshot = none)
    (hfiles : ∀ file ∈ folder.files, isNativeAtomicRecordFile file.1 = false)
    (calls : List StoreCall) :
    let file := runCalls (fileCall migrate) calls folder
    let memory := runCalls memoryCall calls InsertionMap.empty
    file.1 = memory.1 ∧
    (∀ call error, (fileCall migrate call file.2).1 = .error error →
      (fileCall migrate call file.2).2 = file.2 ∧ (memoryCall call memory.2).2 = memory.2) ∧
    ∀ store : AtomicNamespace,
      (∀ key, fileGet migrate file.2 store key = .ok (memoryGet memory.2 store key)) ∧
      (∀ keys, fileGetMany migrate file.2 store keys = .ok (memoryGetMany memory.2 store keys)) ∧
      ∀ start, fileListKeys migrate file.2 store start =
        .ok (memoryListKeys memory.2 store start) := by
  have hempty : Corresponds migrate InsertionMap.empty folder := corresponds_empty hsnapshot hfiles
  have hrun := runCalls_agree hempty calls
  refine ⟨hrun.1,?_,?_⟩
  · intro call error herror
    exact (sameOutcome_call hrun.2 call).rejected error herror
  · intro store
    exact hrun.2.reads store

/-- A token received in a folder that holds a session file. -/
theorem memory_and_file_agree_token :
    (runCalls (fileCall false) [.atomic (.storeReceivedTcToken [97] [1] [53])]
      ⟨"",none,[(ofString "session-a.bin",[])]⟩).1 =
    (runCalls memoryCall [.atomic (.storeReceivedTcToken [97] [1] [53])] InsertionMap.empty).1 :=
  (memory_and_file_agree false ⟨"",none,[(ofString "session-a.bin",[])]⟩ rfl
    (by decide) [.atomic (.storeReceivedTcToken [97] [1] [53])]).1

end Baileyrs.AtomicStore
