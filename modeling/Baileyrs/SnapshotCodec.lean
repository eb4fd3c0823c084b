import Baileyrs.SnapshotRows
import Baileyrs.AtomicStore

/-!
# Text of a snapshot file

Rows are published as the JSON array of their keys and base64 bytes. Reading
checks every entry again: its shape, the namespace, that no key is listed twice,
and that key and bytes are written the canonical way. What one side publishes the
other side reads back, and a file that reads at all lists its rows canonically.
-/

namespace Baileyrs.SnapshotRows

open JsString AtomicStore

/-- Add the row an entry lists. -/
def readRow (namespaces : List JsString) (rows : AtomicRows Bytes) :
    Json → Except StoreError (AtomicRows Bytes)
  | .array [.string text,.string value] =>
    match Json.parse text with
    | none => .error .syntaxError
    | some (.array [.string store,.string key]) =>
      if ¬namespaces.contains store then .error (.typeError "invalid atomic store key")
      else if (rows.get text).isSome then .error (.typeError "duplicate atomic store key")
      else if rowKey store key ≠ text then .error (.typeError "noncanonical atomic store key")
      else if Base64.encode (Base64.decode value) ≠ value then
        .error (.typeError "invalid atomic store bytes")
      else .ok (rows.set text (Base64.decode value))
    | some _ => .error (.typeError "invalid atomic store key")
  | _ => .error (.typeError "invalid atomic store entry")

/-- Add the rows of the remaining entries. -/
def readRows (namespaces : List JsString) :
    AtomicRows Bytes → List Json → Except StoreError (AtomicRows Bytes)
  | rows,[] => .ok rows
  | rows,entry::rest =>
    match readRow namespaces rows entry with
    | .ok rows => readRows namespaces rows rest
    | .error error => .error error

/-- Rows of a snapshot file. -/
def readSnapshot (namespaces : List JsString) (file : Bytes) : Except StoreError (AtomicRows Bytes) :=
  match Json.parse (readUtf8 none file) with
  | none => .error .syntaxError
  | some (.array entries) => readRows namespaces InsertionMap.empty entries
  | some _ => .error (.typeError "invalid atomic store snapshot")

/-- Entry of a row. -/
def rowEntry (row : JsString × Bytes) : Json :=
  .array [.string row.1,.string (Base64.encode row.2)]

/-- Bytes of the file that publishes rows. -/
def snapshotBytes (rows : AtomicRows Bytes) : Bytes :=
  encodeUtf8 (Json.stringify (.array (rows.entries.map rowEntry)))

/-- Pair of an entry whose bytes are canonical base64. -/
def entryPair : Json → Option (JsString × Bytes)
  | .array [.string text,.string value] =>
    if Base64.encode (Base64.decode value) = value then some (text,Base64.decode value) else none
  | _ => none

/-- Text of a snapshot file, up to the encoding of its pairs. -/
def textOf (file : Bytes) : SnapshotText Bytes :=
  match Json.parse (readUtf8 none file) with
  | some (.array entries) =>
    match entries.mapM entryPair with
    | some pairs => .rows pairs
    | none => .malformed
  | _ => .malformed

/-- Row keys an array of entries lists. -/
def listedKeys : List Json → List JsString
  | [] => []
  | .array (.string text::_)::rest => text::listedKeys rest
  | _::rest => listedKeys rest

/-- Rows whose keys are canonical texts of known namespaces. -/
def Canonical (namespaces : List JsString) (rows : AtomicRows Bytes) : Prop :=
  ∀ text ∈ rows.keys, ∃ store ∈ namespaces, ∃ key, text = rowKey store key

/-- The canonical text of a namespace and a key parses as these. -/
theorem parse_rowKey (store key : JsString) :
    Json.parse (rowKey store key) = some (.array [.string store,.string key]) := by
  have hnames := rowNames_rowKey store key
  unfold rowNames at hnames
  split at hnames
  · rename_i hparse
    cases hnames
    exact hparse
  · cases hnames

theorem texts_rowEntry (row : JsString × Bytes) : Json.Texts (rowEntry row) := by
  refine .array _ ?_
  intro item hitem
  simp only [List.mem_cons,List.not_mem_nil,or_false] at hitem
  rcases hitem with rfl | rfl
  · exact .string _
  · exact .string _

/-- A published file parses as the entries of its rows. -/
theorem parse_snapshotBytes (rows : AtomicRows Bytes) :
    Json.parse (readUtf8 none (snapshotBytes rows)) = some (.array (rows.entries.map rowEntry)) := by
  have htexts : Json.Texts (.array (rows.entries.map rowEntry)) := by
    refine .array _ ?_
    intro item hitem
    have hrow := List.mem_map.mp hitem
    rcases hrow with ⟨row,_,rfl⟩
    exact texts_rowEntry row
  have hread := readUtf8_encodeUtf8 (Json.paired_stringify htexts) []
  rw [List.append_nil,readUtf8,List.append_nil] at hread
  rw [snapshotBytes,hread]
  exact Json.parse_stringify htexts

/-- An entry is added when its key is accepted and new and its bytes are canonical. -/
theorem readRow_ok_iff {namespaces : List JsString} {rows last : AtomicRows Bytes} {entry : Json} :
    readRow namespaces rows entry = .ok last ↔ ∃ pair, entryPair entry = some pair ∧
      acceptsKey namespaces pair.1 = true ∧ rows.get pair.1 = none ∧ last = rows.set pair.1 pair.2 := by
  constructor
  · intro h
    unfold readRow at h
    split at h
    · rename_i text value
      split at h
      · cases h
      · rename_i store key hparse
        split_ifs at h with hstore hnew hcanonical hbytes
        have hnames : rowNames text = some (store,key) := by rw [rowNames,hparse]
        have haccepts : acceptsKey namespaces text = true := by
          rw [acceptsKey,hnames]
          simpa using ⟨by simpa using hstore,not_not.mp hcanonical⟩
        have hnone : rows.get text = none := by simpa using hnew
        have hpair : entryPair (.array [.string text,.string value]) =
            some (text,Base64.decode value) := by rw [entryPair,if_pos (not_not.mp hbytes)]
        cases h
        exact ⟨_,hpair,haccepts,hnone,rfl⟩
      · cases h
    · cases h
  · rintro ⟨pair,hpair,haccepts,hnone,rfl⟩
    unfold entryPair at hpair
    split at hpair
    · rename_i text value
      split_ifs at hpair with hbytes
      cases hpair
      have hkey := acceptsKey_iff.mp haccepts
      rcases hkey with ⟨store,hstore,key,rfl⟩
      have hparse : Json.parse (rowKey store key) = some (.array [.string store,.string key]) :=
        parse_rowKey store key
      dsimp only at hnone
      unfold readRow
      dsimp only
      rw [hparse]
      dsimp only
      rw [hnone,if_neg (not_not.mpr (List.contains_iff_mem.mpr hstore)),if_neg (by simp),
        if_neg (not_not.mpr rfl),if_neg (not_not.mpr hbytes)]
    · cases hpair

/-- Reading the entries is reading their pairs. -/
theorem readRows_ok_iff {namespaces : List JsString} {entries : List Json} {rows last : AtomicRows Bytes} :
    readRows namespaces rows entries = .ok last ↔ ∃ pairs, entries.mapM entryPair = some pairs ∧
        readEntries namespaces pairs rows = some last := by
  induction entries generalizing rows with
  | nil => simp [readRows,readEntries]
  | cons entry rest ih =>
    unfold readRows
    cases hrow : readRow namespaces rows entry with
    | error error =>
      have hnone : ¬∃ pairs, (entry::rest).mapM entryPair = some pairs ∧
          readEntries namespaces pairs rows = some last := by
        rintro ⟨pairs,hpairs,hread⟩
        rw [List.mapM_cons] at hpairs
        cases hpair : entryPair entry with
        | none => simp [hpair] at hpairs
        | some pair =>
          cases htail : rest.mapM entryPair with
          | none => simp [hpair,htail] at hpairs
          | some tail =>
            simp only [hpair,htail,Option.bind_eq_bind,Option.bind_some,Option.pure_def,
              Option.some.injEq] at hpairs
            subst hpairs
            unfold readEntries at hread
            split_ifs at hread with haccepts
            cases hget : rows.get pair.1 with
            | some bytes => simp [hget] at hread
            | none =>
              have hok := readRow_ok_iff.mpr ⟨pair,hpair,haccepts,hget,rfl⟩
              rw [hrow] at hok
              cases hok
      simpa using hnone
    | ok next =>
      have hnext := readRow_ok_iff.mp hrow
      rcases hnext with ⟨pair,hpair,haccepts,hget,rfl⟩
      dsimp only
      rw [ih,List.mapM_cons,hpair]
      constructor
      · rintro ⟨pairs,hpairs,hread⟩
        refine ⟨pair::pairs,by simp [hpairs],?_⟩
        rw [readEntries,if_pos haccepts,hget]
        exact hread
      · rintro ⟨pairs,hpairs,hread⟩
        cases htail : rest.mapM entryPair with
        | none => simp [htail] at hpairs
        | some tail =>
          simp only [htail,Option.bind_eq_bind,Option.bind_some,Option.pure_def,
            Option.some.injEq] at hpairs
          subst hpairs
          rw [readEntries,if_pos haccepts,hget] at hread
          exact ⟨tail,rfl,hread⟩

/-- Reading a file is decoding the text it holds. -/
theorem readSnapshot_ok_iff {namespaces : List JsString} {file : Bytes} {rows : AtomicRows Bytes} :
    readSnapshot namespaces file = .ok rows ↔ decodeRows namespaces (textOf file) = some rows := by
  unfold readSnapshot textOf
  split
  · rename_i hparse
    simp [hparse,decodeRows]
  · rename_i entries hparse
    rw [readRows_ok_iff,hparse]
    dsimp only
    cases hpairs : entries.mapM entryPair with
    | none => simp [decodeRows]
    | some pairs => simp [decodeRows]
  · rename_i value hother hparse
    rw [hparse]
    cases value with
    | array entries => exact absurd rfl (hother entries)
    | _ => simp [decodeRows]

theorem mapM_rowEntry (entries : List (JsString × Bytes)) : (entries.map rowEntry).mapM entryPair = some entries := by
  induction entries with
  | nil => rfl
  | cons row rest ih =>
    have hrow : entryPair (rowEntry row) = some row := by
      rw [rowEntry,entryPair,if_pos (by rw [Base64.decode_encode]),Base64.decode_encode]
    rw [List.map_cons,List.mapM_cons,hrow,ih]
    rfl

/-- A published file holds the text of its rows. -/
theorem textOf_snapshotBytes (rows : AtomicRows Bytes) : textOf (snapshotBytes rows) = encodeRows rows := by
  rw [textOf,parse_snapshotBytes]
  dsimp only
  rw [mapM_rowEntry]
  rfl

/-- Accepted keys that are all new are read. -/
theorem readEntries_isSome {namespaces : List JsString} {entries : List (JsString × Bytes)}
    {rows : AtomicRows Bytes} (haccepts : ∀ pair ∈ entries, acceptsKey namespaces pair.1 = true)
    (hnodup : (entries.map Prod.fst).Nodup) (hnew : ∀ pair ∈ entries, rows.get pair.1 = none) :
    ∃ last, readEntries namespaces entries rows = some last := by
  induction entries generalizing rows with
  | nil => exact ⟨rows,rfl⟩
  | cons pair rest ih =>
    rw [List.map_cons,List.nodup_cons] at hnodup
    have hfirst := haccepts pair List.mem_cons_self
    have hget := hnew pair List.mem_cons_self
    have hrest : ∀ other ∈ rest, (rows.set pair.1 pair.2).get other.1 = none := by
      intro other hother
      have hne : pair.1 ≠ other.1 := by
        intro heq
        exact hnodup.1 (List.mem_map.mpr ⟨other,hother,heq.symm⟩)
      rw [InsertionMap.get_set_ne _ _ hne]
      exact hnew other (List.mem_cons_of_mem _ hother)
    have hlast := ih (fun other hother => haccepts other (List.mem_cons_of_mem _ hother)) hnodup.2
      hrest
    rw [readEntries,if_pos hfirst,hget]
    exact hlast

/-- Canonical rows are read back as they were published. -/
theorem readSnapshot_snapshotBytes {namespaces : List JsString} {rows : AtomicRows Bytes}
    (h : Canonical namespaces rows) : readSnapshot namespaces (snapshotBytes rows) = .ok rows := by
  have haccepts : ∀ pair ∈ rows.entries, acceptsKey namespaces pair.1 = true := by
    intro pair hpair
    exact acceptsKey_iff.mpr (h pair.1 (List.mem_map.mpr ⟨pair,hpair,rfl⟩))
  have hlast : ∃ last, readEntries namespaces rows.entries InsertionMap.empty = some last :=
    readEntries_isSome haccepts rows.nodup fun _ _ => rfl
  rcases hlast with ⟨last,hlast⟩
  have hdecode : decodeRows namespaces (encodeRows rows) = some last := hlast
  have heq := decodeRows_encodeRows hdecode
  rw [readSnapshot_ok_iff,textOf_snapshotBytes,hdecode,heq]

/-- What reads at all has accepted keys only. -/
theorem readEntries_accepts {namespaces : List JsString} {entries : List (JsString × Bytes)}
    {rows last : AtomicRows Bytes} (h : readEntries namespaces entries rows = some last) :
    ∀ pair ∈ entries, acceptsKey namespaces pair.1 = true := by
  induction entries generalizing rows with
  | nil => simp
  | cons pair rest ih =>
    unfold readEntries at h
    split_ifs at h with haccepts
    split at h
    · have hrest := ih h
      intro other hother
      rw [List.mem_cons] at hother
      rcases hother with rfl | hother
      · exact haccepts
      · exact hrest other hother
    · cases h

/-- Entries with canonical bytes list the keys of their pairs. -/
theorem listedKeys_of_mapM {entries : List Json} {pairs : List (JsString × Bytes)}
    (h : entries.mapM entryPair = some pairs) : listedKeys entries = pairs.map Prod.fst := by
  induction entries generalizing pairs with
  | nil =>
    cases h
    rfl
  | cons entry rest ih =>
    rw [List.mapM_cons] at h
    cases hpair : entryPair entry with
    | none => simp [hpair] at h
    | some pair =>
      cases htail : rest.mapM entryPair with
      | none => simp [hpair,htail] at h
      | some tail =>
        simp only [hpair,htail,Option.bind_eq_bind,Option.bind_some,Option.pure_def,
          Option.some.injEq] at h
        subst h
        unfold entryPair at hpair
        split at hpair
        · split_ifs at hpair
          cases hpair
          rw [listedKeys,ih htail]
          rfl
        · cases hpair

/-- A file that reads at all lists the keys of its rows, each canonical. -/
theorem readSnapshot_keys {namespaces : List JsString} {file : Bytes} {rows : AtomicRows Bytes}
    {entries : List Json} (hparse : Json.parse (readUtf8 none file) = some (.array entries))
    (h : readSnapshot namespaces file = .ok rows) : listedKeys entries = rows.keys ∧ Canonical namespaces rows := by
  have hdecode := readSnapshot_ok_iff.mp h
  unfold textOf at hdecode
  rw [hparse] at hdecode
  dsimp only at hdecode
  cases hpairs : entries.mapM entryPair with
  | none => simp [hpairs,decodeRows] at hdecode
  | some pairs =>
    rw [hpairs] at hdecode
    have hread : readEntries namespaces pairs InsertionMap.empty = some rows := hdecode
    have hentries := readEntries_entries hread
    simp only [InsertionMap.empty,List.nil_append] at hentries
    have haccepts := readEntries_accepts hread
    rw [← hentries] at haccepts
    constructor
    · rw [listedKeys_of_mapM hpairs,InsertionMap.keys,hentries]
    · intro text htext
      have hrow := List.mem_map.mp htext
      rcases hrow with ⟨pair,hpair,rfl⟩
      exact acceptsKey_iff.mp (haccepts pair hpair)

/-- Rows that are read are canonical. -/
theorem canonical_of_readSnapshot {namespaces : List JsString} {file : Bytes}
    {rows : AtomicRows Bytes} (h : readSnapshot namespaces file = .ok rows) : Canonical namespaces rows := by
  cases hparse : Json.parse (readUtf8 none file) with
  | none => simp [readSnapshot,hparse] at h
  | some value =>
    cases value with
    | array entries => exact (readSnapshot_keys hparse h).2
    | _ => simp [readSnapshot,hparse] at h

theorem Canonical.empty (namespaces : List JsString) :
    Canonical namespaces (InsertionMap.empty : AtomicRows Bytes) := by
  intro text htext
  simp at htext

/-- Writing a row of a known namespace keeps the keys canonical. -/
theorem Canonical.set {namespaces : List JsString} {rows : AtomicRows Bytes} {store : JsString}
    (h : Canonical namespaces rows) (hstore : store ∈ namespaces) (key : JsString) (value : Bytes) :
    Canonical namespaces (rows.set (rowKey store key) value) := by
  intro text htext
  rw [InsertionMap.mem_keys_set] at htext
  rcases htext with rfl | htext
  · exact ⟨store,hstore,key,rfl⟩
  · exact h text htext

/-- Removing a row keeps the keys canonical. -/
theorem Canonical.delete {namespaces : List JsString} {rows : AtomicRows Bytes}
    (h : Canonical namespaces rows) (text : JsString) : Canonical namespaces (rows.delete text) := by
  intro other hother
  rw [InsertionMap.mem_keys_delete] at hother
  exact h other hother.2

end Baileyrs.SnapshotRows
