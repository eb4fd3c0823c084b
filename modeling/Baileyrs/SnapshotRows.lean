import Baileyrs.InsertionMap
import Baileyrs.JsonText
import Baileyrs.Base64

/-!
# Rows of an atomic store snapshot

A snapshot file holds a JSON array of rows, each a pair of a row key and its
bytes in base64. A row key is itself the canonical JSON text of a namespace
and a key. Reading accepts only canonical keys of known namespaces, each at
most once, so what it returns is exactly what the file lists.
-/

namespace Baileyrs.SnapshotRows

open JsString

/-- Rows of the store, in insertion order. -/
abbrev AtomicRows (B : Type*) := InsertionMap JsString B

/-- Canonical text of a namespace and a key. -/
def rowKey (store key : JsString) : JsString := Json.stringify (.array [.string store,.string key])

/-- Namespace and key a text names. -/
def rowNames (text : JsString) : Option (JsString × JsString) :=
  match Json.parse text with
  | some (.array [.string store,.string key]) => some (store,key)
  | _ => none

/-- A row key is the canonical text of a known namespace and a key. -/
def acceptsKey (namespaces : List JsString) (text : JsString) : Bool :=
  match rowNames text with
  | some (store,key) => namespaces.contains store && rowKey store key == text
  | none => false

/-- The canonical text of a namespace and a key names these. -/
theorem rowNames_rowKey (store key : JsString) : rowNames (rowKey store key) = some (store,key) := by
  have htexts : Json.Texts (.array [.string store,.string key]) := by
    refine .array _ ?_
    intro item hitem
    simp only [List.mem_cons,List.not_mem_nil,or_false] at hitem
    rcases hitem with rfl | rfl
    · exact .string store
    · exact .string key
  have hparse : Json.parse (rowKey store key) = some (.array [.string store,.string key]) :=
    Json.parse_stringify htexts
  rw [rowNames,hparse]

/-- Row keys name one namespace and key. -/
theorem rowKey_inj {store key store' key' : JsString} (h : rowKey store key = rowKey store' key') :
    store = store' ∧ key = key' := by
  have hnames := rowNames_rowKey store key
  rw [h,rowNames_rowKey] at hnames
  cases hnames
  exact ⟨rfl,rfl⟩

/-- The accepted keys are the canonical ones of known namespaces. -/
theorem acceptsKey_iff {namespaces : List JsString} {text : JsString} :
    acceptsKey namespaces text = true ↔ ∃ store ∈ namespaces, ∃ key, text = rowKey store key := by
  constructor
  · intro h
    unfold acceptsKey at h
    split at h
    · rename_i store key _
      rw [Bool.and_eq_true,List.contains_iff_mem,beq_iff_eq] at h
      exact ⟨store,h.1,key,h.2.symm⟩
    · cases h
  · rintro ⟨store,hstore,key,rfl⟩
    unfold acceptsKey
    rw [rowNames_rowKey]
    simp [hstore]

variable {B : Type*}

/-- Text of a snapshot file: the pairs of a JSON array whose values are
canonical base64, or any text that is no such array. -/
inductive SnapshotText (B : Type*) where
  | rows (entries : List (JsString × B))
  | malformed

/-- Read the remaining rows of a snapshot. -/
def readEntries (namespaces : List JsString) :
    List (JsString × B) → AtomicRows B → Option (AtomicRows B)
  | [],rows => some rows
  | (key,bytes)::rest,rows =>
    if acceptsKey namespaces key = true then
      match rows.get key with
      | none => readEntries namespaces rest (rows.set key bytes)
      | some _ => none
    else none

/-- Rows of a snapshot file; any defect rejects the whole file. -/
def decodeRows (namespaces : List JsString) : SnapshotText B → Option (AtomicRows B)
  | .rows entries => readEntries namespaces entries InsertionMap.empty
  | .malformed => none

/-- Text a snapshot file gets for its rows. -/
def encodeRows (rows : AtomicRows B) : SnapshotText B := .rows rows.entries

/-- Reading appends the listed rows. -/
theorem readEntries_entries {namespaces : List JsString} {entries : List (JsString × B)}
    {rows last : AtomicRows B} (h : readEntries namespaces entries rows = some last) :
    last.entries = rows.entries++entries := by
  induction entries generalizing rows with
  | nil =>
    cases h
    rw [List.append_nil]
  | cons pair rest ih =>
    unfold readEntries at h
    split at h
    · split at h
      · rename_i hnone
        have hrest := ih h
        rw [InsertionMap.entries_set_of_absent _ hnone,List.append_assoc] at hrest
        exact hrest
      · cases h
    · cases h

/-- A snapshot that reads at all reads as the rows it was written from. -/
theorem decodeRows_encodeRows {namespaces : List JsString} {rows last : AtomicRows B}
    (h : decodeRows namespaces (encodeRows rows) = some last) : last = rows := by
  have hentries := readEntries_entries h
  cases last
  cases rows
  simp only [InsertionMap.empty,List.nil_append] at hentries
  subst hentries
  rfl

end Baileyrs.SnapshotRows
