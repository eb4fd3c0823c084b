import Baileyrs.TransactionalStore

/-!
# Memory store

Rows are held in one map per namespace, and a namespace without rows has no map.
A change of several rows reads through to these maps and stages what it writes;
the writes are replayed in order once it has not thrown. Against the snapshot of
the file store this is a projection: the map of a namespace lists the rows whose
canonical keys name it, in their order.
-/

namespace Baileyrs.AtomicStore

open JsString SnapshotRows

/-- Rows of one namespace. -/
abbrev StoreBucket := InsertionMap JsString Bytes

/-- Maps of the namespaces that have rows. -/
abbrev MemoryStores := InsertionMap JsString StoreBucket

/-- Map of a namespace, or an empty one to write. -/
def bucketForWrite (stores : MemoryStores) (store : JsString) : StoreBucket :=
  (stores.get store).getD InsertionMap.empty

/-- Store the map of a namespace unless it is empty. -/
def deleteEmptyBucket (stores : MemoryStores) (store : JsString) (bucket : StoreBucket) :
    MemoryStores :=
  if bucket.size = 0 then stores.delete store else stores.set store bucket

/-- Write a row. -/
def memorySet (stores : MemoryStores) (store key : JsString) (value : Bytes) : MemoryStores :=
  stores.set store ((bucketForWrite stores store).set key value)

/-- Remove a row. -/
def memoryDelete (stores : MemoryStores) (store key : JsString) : MemoryStores :=
  match stores.get store with
  | none => stores
  | some bucket => deleteEmptyBucket stores store (bucket.delete key)

/-- Read a row. -/
def memoryGet (stores : MemoryStores) (store key : JsString) : Option Bytes :=
  (stores.get store).bind fun bucket => bucket.get key

/-- A change in progress: the maps it reads and what it has staged. -/
structure StagedChange where
  /-- Maps of the store. -/
  stores : MemoryStores
  /-- Last staged value of a row; none when it was removed. -/
  staged : InsertionMap JsString (Option Bytes)
  /-- Staged writes, in order. -/
  writes : List (JsString × Option Bytes)

/-- Read a row of a change in progress. -/
def StagedChange.read (change : StagedChange) (rawKey : JsString) :
    Except StoreError (Option Bytes) :=
  match change.staged.get rawKey with
  | some value => .ok value
  | none =>
    match rowNames rawKey with
    | some (store,key) => .ok (memoryGet change.stores store key)
    | none => .error .syntaxError

/-- Stage a value or a removal. -/
def StagedChange.stage (change : StagedChange) (rawKey : JsString) (value : Option Bytes) :
    StagedChange :=
  {change with staged := change.staged.set rawKey value, writes := change.writes++[(rawKey,value)]}

/-- A change in progress as a view; removing a row reads it first. -/
def stagedView : RowView StagedChange where
  get change rawKey := change.read rawKey
  set change rawKey value := change.stage rawKey (some value)
  delete change rawKey := (change.read rawKey).map fun _ => change.stage rawKey none

/-- Apply a staged write to the maps. -/
def replayWrite (stores : MemoryStores) (write : JsString × Option Bytes) : MemoryStores :=
  match rowNames write.1 with
  | none => stores
  | some (store,key) =>
    match write.2 with
    | some value => memorySet stores store key value
    | none => memoryDelete stores store key

/-- Change several rows, unless the change throws. -/
def memoryTransaction (stores : MemoryStores) (program : RowProgram Unit) :
    Except StoreError Unit × MemoryStores :=
  match stagedView.run ⟨stores,InsertionMap.empty,[]⟩ program with
  | .ok (_,change) => (.ok (),change.writes.foldl replayWrite stores)
  | .error error => (.error error,stores)

/-- A call on the memory store. -/
def memoryCall : StoreCall → MemoryStores → Except StoreError CallResult × MemoryStores
  | .atomic call,stores =>
    let outcome := atomicCallbacks memoryTransaction call stores
    (outcome.1.map fun _ => .undefined,outcome.2)
  | .set store key value,stores => (.ok .undefined,memorySet stores store key value)
  | .delete store key,stores => (.ok .undefined,memoryDelete stores store key)
  | .setMany store entries,stores =>
    (.ok .undefined,
      if entries.length = 0 then stores
      else stores.set store (entries.foldl (fun bucket entry => bucket.set entry.1 entry.2)
        (bucketForWrite stores store)))
  | .deleteMany store keys,stores =>
    (.ok .undefined,
      match stores.get store with
      | none => stores
      | some bucket =>
        deleteEmptyBucket stores store (keys.foldl (fun bucket key => bucket.delete key) bucket))
  | .deletePrefix store start,stores =>
    match stores.get store with
    | none => (.ok (.count 0),stores)
    | some bucket =>
      let deleted := bucket.keys.filter start.isPrefixOf
      (.ok (.count deleted.length),
        deleteEmptyBucket stores store (deleted.foldl (fun bucket key => bucket.delete key) bucket))

/-- Requested rows that exist. -/
def memoryGetMany (stores : MemoryStores) (store : JsString) (keys : List JsString) :
    List (JsString × Bytes) :=
  match stores.get store with
  | none => []
  | some bucket => keys.filterMap fun key => (bucket.get key).map fun value => (key,value)

/-- Keys of a namespace; an empty start is no restriction. -/
def memoryListKeys (stores : MemoryStores) (store : JsString) (start : Option JsString) :
    List JsString :=
  match stores.get store with
  | none => []
  | some bucket =>
    bucket.keys.filter fun key =>
      match start with
      | some start => start.isEmpty || start.isPrefixOf key
      | none => true

/-- Key and value of a row of a namespace. -/
def rowOf (store : JsString) (row : JsString × Bytes) : Option (JsString × Bytes) :=
  match rowNames row.1 with
  | some (namespace_,id) => if namespace_ = store then some (id,row.2) else none
  | none => none

theorem rowOf_rowKey (store other key : JsString) (value : Bytes) :
    rowOf store (rowKey other key,value) = if other = store then some (key,value) else none := by
  rw [rowOf,rowNames_rowKey]

/-- Listing restricts the rows of the namespace to the start. -/
theorem listRows_eq (rows : AtomicRows Bytes) (store start : JsString) : listRows rows store start =
      (rows.entries.filterMap (rowOf store)).filter fun row => start.isPrefixOf row.1 := by
  unfold listRows
  rw [List.filter_filterMap]
  refine List.filterMap_congr ?_
  intro row _
  unfold rowOf
  cases hnames : rowNames row.1 with
  | none => rfl
  | some names =>
    by_cases hstore : names.1 = store
    · by_cases hstart : start.isPrefixOf names.2 = true
      · simp [hstore,hstart,Option.filter]
      · simp [hstore,hstart,Option.filter]
    · simp [hstore]

/-- The rows of a namespace follow a write. -/
theorem filterMap_put {entries : List (JsString × Bytes)}
    (h : ∀ row ∈ entries, ∃ store key, row.1 = rowKey store key) (store other key : JsString)
    (value : Bytes) : (InsertionMap.put entries (rowKey other key) value).filterMap (rowOf store) =
      if other = store then InsertionMap.put (entries.filterMap (rowOf store)) key value
      else entries.filterMap (rowOf store) := by
  induction entries with
  | nil =>
    rw [InsertionMap.put,List.filterMap_cons,rowOf_rowKey]
    split_ifs <;> rfl
  | cons row rest ih =>
    have hrest := ih fun row hrow => h row (List.mem_cons_of_mem _ hrow)
    have hnamed := h row List.mem_cons_self
    rcases row with ⟨text,bytes⟩
    rcases hnamed with ⟨named,id,rfl⟩
    by_cases hsame : rowKey named id = rowKey other key
    · have hparts := rowKey_inj hsame
      rcases hparts with ⟨rfl,rfl⟩
      rw [InsertionMap.put,if_pos rfl,List.filterMap_cons,List.filterMap_cons,rowOf_rowKey,
        rowOf_rowKey]
      split_ifs with hstore
      · simp [InsertionMap.put]
      · rfl
    · rw [InsertionMap.put,if_neg hsame,List.filterMap_cons,List.filterMap_cons,rowOf_rowKey,hrest]
      by_cases hnamed : named = store
      · by_cases hother : other = store
        · subst hnamed hother
          have hkey : ¬id = key := fun heq => hsame (by rw [heq])
          simp [InsertionMap.put,hkey]
        · simp [hnamed,hother]
      · by_cases hother : other = store
        · simp [hnamed,hother]
        · simp [hnamed,hother]

/-- The rows of a namespace follow a removal. -/
theorem filterMap_filter {entries : List (JsString × Bytes)}
    (h : ∀ row ∈ entries, ∃ store key, row.1 = rowKey store key) (store other key : JsString) :
    (entries.filter fun row => row.1 ≠ rowKey other key).filterMap (rowOf store) =
      if other = store then (entries.filterMap (rowOf store)).filter fun row => row.1 ≠ key
      else entries.filterMap (rowOf store) := by
  induction entries with
  | nil => simp
  | cons row rest ih =>
    have hrest := ih fun row hrow => h row (List.mem_cons_of_mem _ hrow)
    have hnamed := h row List.mem_cons_self
    rcases row with ⟨text,bytes⟩
    rcases hnamed with ⟨named,id,rfl⟩
    rw [List.filterMap_cons,rowOf_rowKey]
    by_cases hsame : rowKey named id = rowKey other key
    · have hparts := rowKey_inj hsame
      rcases hparts with ⟨rfl,rfl⟩
      rw [List.filter_cons_of_neg (by simp),hrest]
      by_cases hstore : named = store
      · simp [hstore]
      · simp [hstore]
    · rw [List.filter_cons_of_pos (by simpa using hsame),List.filterMap_cons,rowOf_rowKey,hrest]
      by_cases hnamed : named = store
      · by_cases hother : other = store
        · subst hnamed hother
          have hkey : ¬id = key := fun heq => hsame (by rw [heq])
          simp [hkey]
        · simp [hnamed,hother]
      · by_cases hother : other = store
        · simp [hnamed,hother]
        · simp [hnamed,hother]

/-- Looking a row up is looking its key up among the rows of its namespace. -/
theorem find_filterMap {entries : List (JsString × Bytes)}
    (h : ∀ row ∈ entries, ∃ store key, row.1 = rowKey store key) (store key : JsString) :
    InsertionMap.find (entries.filterMap (rowOf store)) key = InsertionMap.find entries (rowKey store key) := by
  induction entries with
  | nil => rfl
  | cons row rest ih =>
    have hrest := ih fun row hrow => h row (List.mem_cons_of_mem _ hrow)
    have hnamed := h row List.mem_cons_self
    rcases row with ⟨text,bytes⟩
    rcases hnamed with ⟨named,id,rfl⟩
    rw [List.filterMap_cons,rowOf_rowKey]
    by_cases hsame : rowKey named id = rowKey store key
    · have hparts := rowKey_inj hsame
      rcases hparts with ⟨rfl,rfl⟩
      simp [InsertionMap.find]
    · by_cases hnamed : named = store
      · subst hnamed
        have hkey : ¬id = key := fun heq => hsame (by rw [heq])
        simp [InsertionMap.find,hkey,hsame,hrest]
      · simp [InsertionMap.find,hnamed,hsame,hrest]

end Baileyrs.AtomicStore
