import Baileyrs.LegacyValues

/-!
# The legacy multi-file key store

Values of all types share one snapshot, where the row of a value is named by
the file an old writer would have used. That file name replaces separators and
colons, so ids that differ only there share a row. Every value lives in the
row of its file name, and a write touches no row but those of its own files.
-/

namespace Baileyrs.LegacyMultiFile

open JsString AtomicStore SnapshotRows LegacyValues

/-- Text of a row: the tree it was written from, or no JSON at all. -/
inductive Text where
  | json (tree : Value)
  | malformed

/-- Rows of the snapshot. -/
abbrev Rows := AtomicRows Text

/-- What one call sets: types with their ids and values, in property order. -/
abbrev Update := List (JsString × List (JsString × Value))

/-- Put a replacement in place of every accepted unit. -/
def replaceAll (accepted : List UInt16) (replacement text : JsString) : JsString :=
  text.flatMap fun u => if accepted.contains u then replacement else [u]

/-- File name without separators and colons. -/
def safeLegacyFileName (file : JsString) : Except StoreError JsString :=
  if file.contains 0 then .error (.typeError "legacy auth filename contains a null byte")
  else .ok (replaceAll [unit ':'] (ofString "-")
    (replaceAll [Json.backslash,unit '/'] (ofString "__") file))

/-- File an old writer keeps a value in. -/
def keyFile (type id : JsString) : JsString := type++ofString "-"++id++ofString ".json"

/-- Name of the row of a value. -/
def fileName (type id : JsString) : Except StoreError JsString := safeLegacyFileName (keyFile type id)

/-- Key of the row of a file. -/
def legacyRow (name : JsString) : JsString := rowKey (ofString "legacy") name

/-- Type of the keys that are revived as messages. -/
def syncKeyType : JsString := ofString "app-state-sync-key"

section Store

variable (byteOf : Value → Option UInt8) (fromObject : Value → Except StoreError Value)

/-- Read the text of a row; a missing row reads as `null`. -/
def decode : Option Text → Except StoreError Value
  | none => .ok .null
  | some (.json tree) => revive byteOf tree
  | some .malformed => .error .syntaxError

/-- Text a value is stored as. -/
def encode (value : Value) : Except StoreError Text := do
  match ← stringify byteOf value with
  | some tree => return .json tree
  | none => .error (.typeError "The first argument must be of type string or an instance of Buffer")

/-- Write one value; an absent one removes the row. -/
def setEntry (rows : Rows) (type id : JsString) (value : Value) : Except StoreError Rows := do
  let name ← fileName type id
  if value.isNullish then return rows.delete (legacyRow name)
  else
    let text ← encode byteOf value
    return rows.set (legacyRow name) text

/-- Write the values of one call. -/
def setBuckets (rows : Rows) (data : Update) : Except StoreError Rows :=
  data.foldlM (fun rows bucket =>
    bucket.2.foldlM (fun rows entry => setEntry byteOf rows bucket.1 entry.1 entry.2) rows) rows

/-- One call runs in a transaction, which publishes its rows or none of them. -/
def keysSet (rows : Rows) (data : Update) : Except StoreError Unit × Rows :=
  match setBuckets byteOf rows data with
  | .ok last => (.ok (),last)
  | .error error => (.error error,rows)

/-- Revive the message of a sync key. -/
def normalize (type : JsString) (value : Value) : Except StoreError Value :=
  if type = syncKeyType ∧ value.isTruthy = true then fromObject value else .ok value

/-- Read one value. -/
def readKey (rows : Rows) (type id : JsString) : Except StoreError Value := do
  let name ← fileName type id
  let value ← decode byteOf (rows.get (legacyRow name))
  normalize fromObject type value

/-- Read the values of several ids. -/
def keysGet (rows : Rows) (type : JsString) (ids : List JsString) :
    Except StoreError (List (JsString × Value)) :=
  ids.mapM fun id => do
    let value ← readKey byteOf fromObject rows type id
    return (id,value)

/-- Rows after calls in turn. -/
def runSets (rows : Rows) (calls : List Update) : Rows :=
  calls.foldl (fun rows data => (keysSet byteOf rows data).2) rows

/-- Values of one call in the order they are written. -/
def entries (data : Update) : List (JsString × JsString × Value) :=
  data.flatMap fun bucket => bucket.2.map fun entry => (bucket.1,entry.1,entry.2)

/-- A value is kept in the file of a name. -/
def keptIn (name : JsString) (entry : JsString × JsString × Value) : Bool :=
  match fileName entry.1 entry.2.1 with
  | .ok own => own == name
  | .error _ => false

/-- Writing a value does not throw: its file has a name and it has a text. -/
def writable (entry : JsString × JsString × Value) : Bool :=
  (fileName entry.1 entry.2.1).isOk && (entry.2.2.isNullish || (encode byteOf entry.2.2).isOk)

/-- A call does not throw. -/
def accepted (data : Update) : Bool := (entries data).all (writable byteOf)

/-- Values a call writes; none when it throws. -/
def writes (data : Update) : List (JsString × JsString × Value) :=
  if accepted byteOf data then entries data else []

/-- Value last kept in one file. -/
def lastKept (name : JsString) (last : Option Value) (written : List (JsString × JsString × Value)) :
    Option Value :=
  written.foldl (fun last entry => if keptIn name entry then some entry.2.2 else last) last

/-- Value last set in one file, by the calls that did not throw. -/
def lastSet (name : JsString) (calls : List Update) : Option Value :=
  lastKept name none (calls.flatMap (writes byteOf))

/-- What reading gives for a value that was set. -/
def persisted (type : JsString) (value : Value) : Except StoreError Value :=
  if value.isNullish then .ok .null
  else do
    let text ← encode byteOf value
    let read ← decode byteOf (some text)
    normalize fromObject type read

/-- Row a value leaves. -/
def stored (value : Value) : Option Text :=
  if value.isNullish then none else (encode byteOf value).toOption

/-- Row of a file after the values of a list. -/
def rowAfter (name : JsString) (row : Option Text) (written : List (JsString × JsString × Value)) :
    Option Text :=
  written.foldl (fun row entry => if keptIn name entry then stored byteOf entry.2.2 else row) row

/-- Files with different names have different rows. -/
theorem legacyRow_injective {name other : JsString} (h : legacyRow name = legacyRow other) :
    name = other := (rowKey_inj h).2

/-- A value that can be written changes the row of its file and no other. -/
theorem setEntry_writable {entry : JsString × JsString × Value} (h : writable byteOf entry = true)
    (rows : Rows) : ∃ last, setEntry byteOf rows entry.1 entry.2.1 entry.2.2 = .ok last ∧
      ∀ name, last.get (legacyRow name) = rowAfter byteOf name (rows.get (legacyRow name)) [entry] := by
  obtain ⟨type,id,value⟩ := entry
  have hparts := Bool.and_eq_true_iff.mp h
  cases hname : fileName type id with
  | error error =>
    have hok := hparts.1
    rw [hname] at hok
    cases hok
  | ok own =>
    have hkept : ∀ name, keptIn name (type,id,value) = (own == name) := by
      intro name
      simp only [keptIn,hname]
    have hrow : ∀ name, legacyRow own = legacyRow name ↔ (own == name) = true := by
      intro name
      rw [beq_iff_eq]
      exact ⟨legacyRow_injective,congrArg legacyRow⟩
    cases hnull : value.isNullish with
    | true =>
      have hset : setEntry byteOf rows type id value = .ok (rows.delete (legacyRow own)) := by
        rw [setEntry,hname]
        simp [hnull,bind,Except.bind,pure,Except.pure]
      refine ⟨_,hset,fun name => ?_⟩
      simp only [rowAfter,List.foldl_cons,List.foldl_nil,hkept,stored,hnull,if_true,
        InsertionMap.get_delete,hrow]
    | false =>
      cases htext : encode byteOf value with
      | error error =>
        have hwritten := hparts.2
        simp [hnull,htext,Except.isOk,Except.toBool] at hwritten
      | ok text =>
        have hset : setEntry byteOf rows type id value = .ok (rows.set (legacyRow own) text) := by
          rw [setEntry,hname]
          simp [hnull,htext,bind,Except.bind,pure,Except.pure]
        refine ⟨_,hset,fun name => ?_⟩
        simp only [rowAfter,List.foldl_cons,List.foldl_nil,hkept,stored,hnull,htext,
          InsertionMap.get_set,hrow,Except.toOption,Bool.false_eq_true,if_false]

/-- A value that cannot be written throws. -/
theorem setEntry_throws {entry : JsString × JsString × Value} (h : writable byteOf entry = false)
    (rows : Rows) : ∃ error, setEntry byteOf rows entry.1 entry.2.1 entry.2.2 = .error error := by
  obtain ⟨type,id,value⟩ := entry
  cases hname : fileName type id with
  | error error => exact ⟨error,by rw [setEntry,hname]; rfl⟩
  | ok own =>
    simp only [writable,hname,Except.isOk,Except.toBool,Bool.true_and,Bool.or_eq_false_iff] at h
    obtain ⟨hnull,hwritten⟩ := h
    cases htext : encode byteOf value with
    | error error =>
      refine ⟨error,?_⟩
      rw [setEntry,hname]
      simp [hnull,htext,bind,Except.bind]
    | ok text =>
      rw [htext] at hwritten
      cases hwritten

/-- The nested loops visit the values in the order of their list. -/
theorem setBuckets_eq (rows : Rows) (data : Update) : setBuckets byteOf rows data =
    (entries data).foldlM (fun rows entry => setEntry byteOf rows entry.1 entry.2.1 entry.2.2) rows := by
  unfold setBuckets
  induction data generalizing rows with
  | nil => rfl
  | cons bucket rest ih =>
    have hsplit : entries (bucket::rest) =
        (bucket.2.map fun entry => (bucket.1,entry.1,entry.2))++entries rest := rfl
    rw [hsplit,List.foldlM_append,List.foldlM_map,List.foldlM_cons]
    exact bind_congr fun last => ih last

/-- Writing a list of values either throws or leaves each row as the list says. -/
theorem setEntries_spec (written : List (JsString × JsString × Value)) (rows : Rows) :
    (written.all (writable byteOf) = true →
      ∃ last, written.foldlM (fun rows entry => setEntry byteOf rows entry.1 entry.2.1 entry.2.2) rows =
        .ok last ∧ ∀ name, last.get (legacyRow name) = rowAfter byteOf name (rows.get (legacyRow name)) written) ∧
    (written.all (writable byteOf) = false →
      ∃ error, written.foldlM (fun rows entry => setEntry byteOf rows entry.1 entry.2.1 entry.2.2) rows =
        .error error) := by
  induction written generalizing rows with
  | nil => exact ⟨fun _ => ⟨rows,rfl,fun name => rfl⟩,fun h => by cases h⟩
  | cons entry rest ih =>
    rw [List.all_cons,List.foldlM_cons]
    cases hfirst : writable byteOf entry with
    | false =>
      obtain ⟨error,herror⟩ := setEntry_throws byteOf hfirst rows
      rw [herror]
      exact ⟨fun h => (by cases h),fun _ => ⟨error,rfl⟩⟩
    | true =>
      obtain ⟨mid,hmid,hrows⟩ := setEntry_writable byteOf hfirst rows
      rw [hmid,Bool.true_and]
      obtain ⟨hok,hthrows⟩ := ih mid
      refine ⟨fun h => ?_,hthrows⟩
      obtain ⟨last,hlast,hafter⟩ := hok h
      refine ⟨last,hlast,fun name => ?_⟩
      rw [hafter,hrows]
      rfl

/-- A call leaves each row as its values say. -/
theorem keysSet_row (rows : Rows) (data : Update) (name : JsString) :
    (keysSet byteOf rows data).2.get (legacyRow name) =
      rowAfter byteOf name (rows.get (legacyRow name)) (writes byteOf data) := by
  obtain ⟨hok,hthrows⟩ := setEntries_spec byteOf (entries data) rows
  unfold keysSet writes
  rw [setBuckets_eq]
  cases haccepted : accepted byteOf data with
  | true =>
    obtain ⟨last,hlast,hafter⟩ := hok haccepted
    rw [hlast]
    exact hafter name
  | false =>
    obtain ⟨error,herror⟩ := hthrows haccepted
    rw [herror]
    rfl

/-- Calls in turn leave each row as their values say. -/
theorem runSets_row (rows : Rows) (calls : List Update) (name : JsString) :
    (runSets byteOf rows calls).get (legacyRow name) =
      rowAfter byteOf name (rows.get (legacyRow name)) (calls.flatMap (writes byteOf)) := by
  unfold runSets
  induction calls generalizing rows with
  | nil => rfl
  | cons data rest ih =>
    rw [List.foldl_cons,ih,keysSet_row,List.flatMap_cons,rowAfter,rowAfter,rowAfter,List.foldl_append]

/-- The row of a file is that of its last value, or as before without one. -/
theorem rowAfter_last (name : JsString) (row : Option Text)
    (written : List (JsString × JsString × Value)) (last : Option Value) :
    rowAfter byteOf name (last.elim row (stored byteOf)) written =
      (lastKept name last written).elim row (stored byteOf) := by
  induction written generalizing last with
  | nil => rfl
  | cons entry rest ih =>
    unfold rowAfter lastKept at ih ⊢
    rw [List.foldl_cons,List.foldl_cons]
    by_cases hkept : keptIn name entry = true
    · rw [if_pos hkept,if_pos hkept]
      exact ih (some entry.2.2)
    · rw [if_neg hkept,if_neg hkept]
      exact ih last

/-- Rows of a file no value is kept in stay as they are. -/
theorem rowAfter_frame {name : JsString} (row : Option Text)
    {written : List (JsString × JsString × Value)} (h : ∀ entry ∈ written, keptIn name entry = false) :
    rowAfter byteOf name row written = row := by
  induction written with
  | nil => rfl
  | cons entry rest ih =>
    have hfirst := h entry List.mem_cons_self
    have hrest := ih fun other hother => h other (List.mem_cons_of_mem _ hother)
    rw [rowAfter,List.foldl_cons,hfirst]
    exact hrest

/-- What a row a value left is read as. -/
theorem decode_stored {value : Value} {entry : JsString × JsString × Value}
    (hentry : writable byteOf entry = true) (hvalue : entry.2.2 = value) (type : JsString) :
    (decode byteOf (stored byteOf value) >>= normalize fromObject type) = persisted byteOf fromObject type value := by
  subst hvalue
  have hwritten := (Bool.and_eq_true_iff.mp hentry).2
  unfold stored persisted
  cases hnull : entry.2.2.isNullish with
  | true =>
    have hnormal : normalize fromObject type .null = .ok .null := by
      rw [normalize,if_neg fun h => Bool.false_ne_true h.2]
    exact hnormal
  | false =>
    rw [hnull,Bool.false_or] at hwritten
    cases htext : encode byteOf entry.2.2 with
    | error error =>
      rw [htext] at hwritten
      cases hwritten
    | ok text => rfl

/-- The value last kept in a file is one of the list, if any of the list is kept there. -/
theorem lastKept_mem {name : JsString} {last : Option Value}
    {written : List (JsString × JsString × Value)} {value : Value} (h : lastKept name last written = some value) :
    last = some value ∨ ∃ entry ∈ written, entry.2.2 = value := by
  induction written generalizing last with
  | nil => exact .inl h
  | cons entry rest ih =>
    unfold lastKept at ih h
    rw [List.foldl_cons] at h
    rcases ih h with hlast | ⟨other,hother,hvalue⟩
    · by_cases hkept : keptIn name entry = true
      · rw [if_pos hkept] at hlast
        exact .inr ⟨entry,List.mem_cons_self,Option.some.inj hlast⟩
      · rw [if_neg hkept] at hlast
        exact .inl hlast
    · exact .inr ⟨other,List.mem_cons_of_mem _ hother,hvalue⟩

/-- A call writes values that can be written, and only its own. -/
theorem mem_writes {data : Update} {entry : JsString × JsString × Value}
    (h : entry ∈ writes byteOf data) : entry ∈ entries data ∧ writable byteOf entry = true := by
  unfold writes at h
  split at h
  · rename_i haccepted
    exact ⟨h,List.all_eq_true.mp haccepted entry h⟩
  · cases h

/-- The value last set was written by a call that did not throw. -/
theorem lastSet_writable {name : JsString} {calls : List Update} {value : Value}
    (h : lastSet byteOf name calls = some value) : ∃ entry, writable byteOf entry = true ∧ entry.2.2 = value := by
  rcases lastKept_mem h with hnone | ⟨entry,hentry,hvalue⟩
  · cases hnone
  · obtain ⟨data,_,hdata⟩ := List.mem_flatMap.mp hentry
    exact ⟨entry,(mem_writes byteOf hdata).2,hvalue⟩

/-- Reading one id reads the row of its file. -/
theorem keysGet_single {type id name : JsString} (hname : fileName type id = .ok name) (rows : Rows) :
    keysGet byteOf fromObject rows type [id] =
      (decode byteOf (rows.get (legacyRow name)) >>= normalize fromObject type).map fun value => [(id,value)] := by
  unfold keysGet
  rw [List.mapM_cons,List.mapM_nil,readKey,hname]
  cases hread : decode byteOf (rows.get (legacyRow name)) with
  | error error => simp [hread,bind,Except.bind,Except.map]
  | ok value =>
    cases hnormal : normalize fromObject type value with
    | error error => simp [hread,hnormal,bind,Except.bind,Except.map]
    | ok result => simp [hread,hnormal,bind,Except.bind,Except.map,pure,Except.pure]

/-- What the calls set in the file of a name is what reading that file gives. -/
structure FileIsolated (rows : Rows) (calls : List Update) (type id name : JsString) : Prop where
  /-- Reading gives the value last set in the file, as the store persists it. -/
  reads : ∀ value, lastSet byteOf name calls = some value →
    keysGet byteOf fromObject (runSets byteOf rows calls) type [id] =
      (persisted byteOf fromObject type value).map fun value => [(id,value)]
  /-- A file no value was set in reads as before. -/
  untouched : lastSet byteOf name calls = none →
    keysGet byteOf fromObject (runSets byteOf rows calls) type [id] =
      keysGet byteOf fromObject rows type [id]
  /-- A further call on other files changes nothing. -/
  frame : ∀ data, (∀ entry ∈ entries data, keptIn name entry = false) →
    keysGet byteOf fromObject (keysSet byteOf (runSets byteOf rows calls) data).2 type [id] =
      keysGet byteOf fromObject (runSets byteOf rows calls) type [id]
  /-- An absent value reads as nothing. -/
  nothing : ∀ value : Value, value.isNullish = true →
    persisted byteOf fromObject type value = .ok .null
  /-- A plain value reads as itself. -/
  exactly : ∀ value, Plain value → type ≠ syncKeyType →
    persisted byteOf fromObject type value = .ok value

/-- Over every run of calls, reading an id gives the value last set in its
file, and no call on other files changes it. -/
theorem keysGet_lastSet (rows : Rows) (calls : List Update) {type id name : JsString}
    (hname : fileName type id = .ok name) :
    FileIsolated byteOf fromObject rows calls type id name := by
  have hrow : ∀ last, lastSet byteOf name calls = last →
      (runSets byteOf rows calls).get (legacyRow name) =
        last.elim (rows.get (legacyRow name)) (stored byteOf) := by
    intro last hlast
    rw [runSets_row,←hlast]
    exact rowAfter_last byteOf name (rows.get (legacyRow name)) _ none
  refine ⟨fun value hvalue => ?_,fun hnone => ?_,fun data hdata => ?_,fun value hnull => ?_,
    fun value hplain htype => ?_⟩
  · obtain ⟨entry,hentry,hlast⟩ := lastSet_writable byteOf hvalue
    rw [keysGet_single byteOf fromObject hname,hrow _ hvalue,Option.elim_some,
      decode_stored byteOf fromObject hentry hlast]
  · rw [keysGet_single byteOf fromObject hname,keysGet_single byteOf fromObject hname,hrow _ hnone,
      Option.elim_none]
  · have hwrites : ∀ entry ∈ writes byteOf data, keptIn name entry = false :=
      fun entry hentry => hdata entry (mem_writes byteOf hentry).1
    rw [keysGet_single byteOf fromObject hname,keysGet_single byteOf fromObject hname,keysSet_row,
      rowAfter_frame byteOf _ hwrites]
  · rw [persisted,if_pos hnull]
  · have hnormal : ∀ value, normalize fromObject type value = .ok value := by
      intro value
      rw [normalize,if_neg fun h => htype h.1]
    obtain ⟨tree,hwrite,hread⟩ := hplain.carried byteOf
    cases hnull : value.isNullish with
    | true =>
      cases hplain with
      | null => rfl
      | _ => cases hnull
    | false =>
      simp [persisted,hnull,encode,hwrite,hread,hnormal,decode,bind,Except.bind,pure,Except.pure]

end Store

/-- A call that sets one value. -/
def single (type id : String) (value : Value) : Update := [(ofString type,[(ofString id,value)])]

/-- Two sessions whose ids differ in a colon share a file, so setting one
changes the other; and a value that looks like a written byte array is read
back as one. -/
theorem keysGet_shared_file :
    keysGet (fun _ => some 0) .ok (runSets (fun _ => some 0) InsertionMap.empty
        [single "session" "a:1" (.bytes [1])]) (ofString "session") [ofString "a:1"] =
      .ok [(ofString "a:1",.bytes [1])] ∧
    keysGet (fun _ => some 0) .ok (runSets (fun _ => some 0) InsertionMap.empty
        [single "session" "a:1" (.bytes [1]),single "session" "a-1" (.bytes [2])])
      (ofString "session") [ofString "a:1"] = .ok [(ofString "a:1",.bytes [2])] ∧
    keysGet (fun _ => some 0) .ok (runSets (fun _ => some 0) InsertionMap.empty
        [single "sender-key-memory" "g" (.object [(ofString "buffer",.bool true)])])
      (ofString "sender-key-memory") [ofString "g"] = .ok [(ofString "g",.bytes [])] :=
  ⟨rfl,rfl,rfl⟩

/-- The same calls, seen from the file both sessions share. -/
theorem keysGet_lastSet_session :
    fileName (ofString "session") (ofString "a:1") = .ok (ofString "session-a-1.json") ∧
    FileIsolated (fun _ => some 0) .ok InsertionMap.empty
      [single "session" "a:1" (.bytes [1]),single "session" "a-1" (.bytes [2])]
      (ofString "session") (ofString "a:1") (ofString "session-a-1.json") :=
  ⟨rfl,keysGet_lastSet (fun _ => some 0) .ok InsertionMap.empty
    [single "session" "a:1" (.bytes [1]),single "session" "a-1" (.bytes [2])] rfl⟩

end Baileyrs.LegacyMultiFile
