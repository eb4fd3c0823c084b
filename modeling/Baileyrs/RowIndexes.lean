import Baileyrs.MemoryAgreement
import Baileyrs.TokenRowText

/-!
# Programs over rows and the indexes they keep

A program of reads and writes resolves over the rows one step after another. An
index row is the JSON array of the names it lists; what was written as an index is
read as the same index.
-/

namespace Baileyrs.AtomicStore

open JsString SnapshotRows

section Programs

variable {R R' : Type}

/-- A program resolves with a result and leaves the rows changed. -/
def Resolves (program : RowProgram R) (rows : AtomicRows Bytes) (result : R)
    (last : AtomicRows Bytes) : Prop :=
  rowsView.run rows program = .ok (result,last)

/-- One program after the other. -/
theorem Resolves.bind {program : RowProgram R} {next : R → RowProgram R'} {rows middle last : AtomicRows Bytes}
    {value : R} {result : R'} (h : Resolves program rows value middle)
    (hnext : Resolves (next value) middle result last) : Resolves (program >>= next) rows result last := by
  have hbind : ∀ program : RowProgram R, program >>= next = program.bind next := fun _ => rfl
  rw [hbind]
  induction program generalizing rows with
  | done found =>
    cases h
    exact hnext
  | throw error => cases h
  | get store key _ ih => exact ih (rows.get (rowKey store key)) h
  | set store key bytes _ ih => exact ih h
  | delete store key _ ih => exact ih h

theorem resolves_pure (value : R) (rows : AtomicRows Bytes) : Resolves (pure value) rows value rows := rfl

theorem resolves_getRow (store : AtomicNamespace) (key : JsString) (rows : AtomicRows Bytes) :
    Resolves (getRow store key) rows (rows.get (rowKey store key)) rows := rfl

theorem resolves_setRow (store : AtomicNamespace) (key : JsString) (value : Bytes) (rows : AtomicRows Bytes) :
    Resolves (setRow store key value) rows () (rows.set (rowKey store key) value) := rfl

theorem resolves_deleteRow (store : AtomicNamespace) (key : JsString) (rows : AtomicRows Bytes) :
    Resolves (deleteRow store key) rows () (rows.delete (rowKey store key)) := rfl

/-- A loop changes the rows item by item. -/
theorem resolves_forM {α : Type} {f : α → RowProgram Unit} {change : AtomicRows Bytes → α → AtomicRows Bytes}
    (h : ∀ item rows, Resolves (f item) rows () (change rows item)) (items : List α)
    (rows : AtomicRows Bytes) : Resolves (items.forM f) rows () (items.foldl change rows) := by
  induction items generalizing rows with
  | nil => exact resolves_pure () rows
  | cons item rest ih => exact (h item rows).bind (ih (change rows item))

end Programs

section Indexes

/-- A set of names is the one read from its names, in order. -/
theorem foldl_set_keys (index : InsertionMap JsString Unit) :
    index.keys.foldl (fun index name => index.set name ()) InsertionMap.empty = index := by
  have hentries : ∀ (names : List JsString) (start : InsertionMap JsString Unit),
      (start.keys++names).Nodup →
      (names.foldl (fun index name => index.set name ()) start).entries =
        start.entries++names.map fun name => (name,()) := by
    intro names
    induction names with
    | nil => exact fun start _ => (List.append_nil _).symm
    | cons name rest ih =>
      intro start hnodup
      have habsent : start.get name = none := by
        rw [InsertionMap.get_eq_none_iff]
        exact fun hmem => (List.nodup_append.mp hnodup).2.2 name hmem name List.mem_cons_self rfl
      have hset := InsertionMap.entries_set_of_absent () habsent
      have hkeys : (start.set name ()).keys = start.keys++[name] := InsertionMap.keys_set_of_absent () habsent
      rw [List.foldl_cons,ih (start.set name ()) (by rw [hkeys,List.append_assoc]; exact hnodup),hset,
        List.map_cons,List.append_assoc]
      rfl
  have hself : index.entries = index.keys.map fun name => (name,()) := by
    rw [InsertionMap.keys,List.map_map]
    exact (List.map_id' index.entries).symm
  have hread := hentries index.keys InsertionMap.empty index.nodup
  generalize index.keys.foldl (fun index name => index.set name ()) InsertionMap.empty = found at hread
  obtain ⟨entries,hnodup⟩ := index
  obtain ⟨others,_⟩ := found
  have hsame : others = entries := hread.trans hself.symm
  subst hsame
  rfl

/-- Strings of an array are its items. -/
theorem mapM_stringItem (names : List JsString) : (names.map Json.string).mapM stringItem = some names := by
  induction names with
  | nil => rfl
  | cons name rest ih =>
    rw [List.map_cons,List.mapM_cons,ih]
    rfl

/-- An index is parsed as the array of its names. -/
theorem parse_encodeIndex (index : InsertionMap JsString Unit) :
    Json.parse (decodeUtf8 (encodeIndex index)) = some (.array (index.keys.map .string)) := by
  have hwritten : Written (.array (index.keys.map .string)) := by
    refine .array _ fun item hitem => ?_
    obtain ⟨name,_,rfl⟩ := List.mem_map.mp hitem
    exact .string name
  have htext : decodeUtf8 (encodeIndex index) = Json.stringify (.array (index.keys.map .string)) := by
    have hpaired := paired_written hwritten
    rw [encodeIndex]
    rw [Json.stringify] at hpaired ⊢
    exact decodeUtf8_encodeUtf8 hpaired (by decide)
  rw [htext]
  exact parse_written hwritten

/-- A row of names: without one, no name is listed. -/
def IndexRow (row : Option Bytes) (index : InsertionMap JsString Unit) : Prop :=
  row = some (encodeIndex index) ∨ row = none ∧ index = InsertionMap.empty

/-- The index that was written is read. -/
theorem resolves_readIndex {key : String} {rows : AtomicRows Bytes} {index : InsertionMap JsString Unit}
    (h : IndexRow (rows.get (rowKey metaRows (ofString key))) index) : Resolves (readIndex key) rows index rows := by
  refine (resolves_getRow metaRows (ofString key) rows).bind ?_
  rcases h with hrow | ⟨hrow,rfl⟩
  · rw [hrow]
    dsimp only
    rw [parse_encodeIndex]
    dsimp only
    rw [mapM_stringItem]
    dsimp only
    rw [foldl_set_keys]
    exact resolves_pure index rows
  · rw [hrow]
    exact resolves_pure InsertionMap.empty rows

/-- A row lists some names: it is the text of the array of them, or there is none
and it lists nothing. -/
def Lists (row : Option Bytes) (names : List JsString) : Prop :=
  row = none ∧ names = [] ∨ ∃ bytes, row = some bytes ∧
    Json.parse (decodeUtf8 bytes) = some (.array (names.map .string))

theorem IndexRow.lists {row : Option Bytes} {index : InsertionMap JsString Unit} (h : IndexRow row index) :
    Lists row index.keys := by
  rcases h with hrow | ⟨hrow,rfl⟩
  · exact .inr ⟨_,hrow,parse_encodeIndex index⟩
  · exact .inl ⟨hrow,rfl⟩

end Indexes

section Keys

/-- Rows of different namespaces or keys are different. -/
theorem rowKey_ne {store other : AtomicNamespace} {key name : JsString}
    (h : store ≠ other ∨ key ≠ name) : rowKey store key ≠ rowKey other name := by
  intro heq
  obtain ⟨hstore,hkey⟩ := rowKey_inj heq
  rcases h with hne | hne
  · exact hne (Subtype.ext hstore)
  · exact hne hkey

theorem get_rowKey_self (rows : AtomicRows Bytes) (store : AtomicNamespace) (key : JsString) (value : Bytes) :
    (rows.set (rowKey store key) value).get (rowKey store key) = some value :=
  InsertionMap.get_set_self rows _ value

theorem get_rowKey_ne (rows : AtomicRows Bytes) {store other : AtomicNamespace} {key name : JsString}
    (value : Bytes) (h : store ≠ other ∨ key ≠ name) :
    (rows.set (rowKey store key) value).get (rowKey other name) = rows.get (rowKey other name) :=
  InsertionMap.get_set_ne rows value (rowKey_ne h)

/-- The namespaces are pairwise different. -/
theorem namespaces_ne : syncVersion ≠ mutationMac ∧ syncVersion ≠ metaRows ∧ mutationMac ≠ metaRows ∧
    mutationMac ≠ syncVersion ∧ metaRows ≠ mutationMac ∧ metaRows ≠ syncVersion ∧ tcToken ≠ metaRows ∧
    metaRows ≠ tcToken := by
  decide

end Keys

section Runs

/-- The memory store keeps what some rows keep. -/
theorem memoryCall_resolves {stores : MemoryStores} {rows lastRows : AtomicRows Bytes} {call : AtomicCall}
    {program : RowProgram Unit} (h : Agrees stores rows) (hresolves : Resolves program rows () lastRows)
    (hcall : ∀ (S : Type) (transaction : S → RowProgram Unit → Except StoreError Unit × S) (s : S),
      atomicCallbacks transaction call s = transaction s program) :
    (memoryCall (.atomic call) stores).1 = .ok .undefined ∧ Agrees (memoryCall (.atomic call) stores).2 lastRows := by
  rcases memoryTransaction_cases h program with ⟨error,hrows,_⟩ | ⟨last,otherRows,hrows,hmemory,hlast⟩
  · rw [hresolves] at hrows
    cases hrows
  · rw [hresolves] at hrows
    cases hrows
    rw [memoryCall,hcall,hmemory]
    exact ⟨rfl,hlast⟩

/-- Calls that keep an invariant of the rows are made one after the other on the memory store. -/
theorem runCalls_resolve {K I : Type} {toCall : K → AtomicCall} {program : K → RowProgram Unit}
    (hcall : ∀ (k : K) (S : Type) (transaction : S → RowProgram Unit → Except StoreError Unit × S) (s : S),
      atomicCallbacks transaction (toCall k) s = transaction s (program k))
    {Kept : List K → AtomicRows Bytes → I → Prop}
    (hstep : ∀ {done : List K} {rows : AtomicRows Bytes} {index : I}, Kept done rows index → ∀ k, ∃ last next,
      Resolves (program k) rows () last ∧ Kept (done++[k]) last next)
    {done : List K} {rows : AtomicRows Bytes} {index : I} {stores : MemoryStores} (h : Kept done rows index)
    (hagrees : Agrees stores rows) (more : List K) : ∃ lastRows lastIndex, Kept (done++more) lastRows lastIndex ∧
      Agrees (runCalls memoryCall (more.map fun k => .atomic (toCall k)) stores).2 lastRows ∧
      ∀ outcome ∈ (runCalls memoryCall (more.map fun k => .atomic (toCall k)) stores).1, outcome = .ok .undefined := by
  induction more generalizing done rows index stores with
  | nil => exact ⟨rows,index,by rw [List.append_nil]; exact h,hagrees,List.forall_mem_nil _⟩
  | cons k rest ih =>
    obtain ⟨middle,next,hresolves,hkept⟩ := hstep h k
    have hmade : (memoryCall (.atomic (toCall k)) stores).1 = .ok .undefined ∧
        Agrees (memoryCall (.atomic (toCall k)) stores).2 middle :=
      memoryCall_resolves hagrees hresolves (hcall k)
    obtain ⟨lastRows,lastIndex,hlast,hrest,houtcomes⟩ := ih hkept hmade.2
    rw [List.append_assoc] at hlast
    refine ⟨lastRows,lastIndex,hlast,hrest,fun outcome houtcome => ?_⟩
    rcases List.mem_cons.mp houtcome with rfl | houtcome
    · exact hmade.1
    · exact houtcomes outcome houtcome

end Runs

end Baileyrs.AtomicStore
