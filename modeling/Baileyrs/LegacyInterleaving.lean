import Baileyrs.LegacyMirrorRuns
import Baileyrs.LabelledRuns

/-!
# Calls of a projected store that interleave

Every lookup and every write of the legacy store is atomic, but a call makes several of
them: a read looks up mirrors and legacy rows and may then mend mirrors, and a set of
bytes the legacy format cannot express looks up the legacy row before it writes. Between
any two of these, other calls take effect. When no set overtakes a read and no legacy
row changes under such a set, a key reads as its last set.
-/

namespace Baileyrs.LegacyProjection

open JsString AtomicStore LegacyValues LegacyMirror LabelledRuns

/-- Number of sets of each key that took effect. -/
abbrev SetCounts := ProjectedStore → JsString → ℕ

/-- A call in progress. Lookups keep the rows they saw; a read also keeps how many sets
had taken effect at its first lookup. -/
inductive Call where
  | reading (store : ProjectedStore) (requested : List JsString) (native legacy : Option LegacyRows)
    (since : SetCounts)
  | mending (store : ProjectedStore) (imported : List Imported) (since : SetCounts)
  | projecting (store : ProjectedStore) (projected : List Projection)
  | writing (store : ProjectedStore) (projected : List Projection) (seen : LegacyRows)
  | settled (outcome : Except StoreError (List (JsString × Bytes)))

/-- A legacy store with calls in progress; the last two fields record what took effect. -/
structure System where
  /-- The legacy store. -/
  store : KeyStore
  /-- Calls in the order they were made. -/
  calls : List Call
  /-- Sets that took effect. -/
  sets : SetCounts
  /-- Bytes of the last set that took effect. -/
  lastSet : ProjectedStore → JsString → Option Bytes

/-- What happens next: a call is made, or a lookup or write of a call takes effect. A
read of one key is one of a list of it. -/
inductive Action where
  | getMany (store : ProjectedStore) (requested : List JsString)
  | set (store : ProjectedStore) (key : JsString) (value : Bytes)
  | lookNative (call : ℕ)
  | lookLegacy (call : ℕ)
  | lookExisting (call : ℕ)
  | write (call : ℕ)

/-- Mirrors of one lookup beside the legacy rows of another. -/
def beside (store : ProjectedStore) (native legacy : LegacyRows) : LegacyRows :=
  fun type key => if type = store.nativeType then native type key else legacy type key

section Steps

variable (codecs : Codecs) (digest : Digest) (carry : String → Value → Value)

/-- A read once lookups arrived: with both it converts, and mends mirrors if it has to. -/
def arrived (store : ProjectedStore) (requested : List JsString) (native legacy : Option LegacyRows)
    (since : SetCounts) : Call :=
  match native,legacy with
  | some native,some legacy =>
    match readProjected codecs digest store requested (beside store native legacy) with
    | .ok imported =>
      if (mirrorUpdates imported).isEmpty then .settled (.ok (readResults imported))
      else .mending store imported since
    | .error error => .settled (.error error)
  | _,_ => .reading store requested native legacy since

/-- Start a read. -/
def startRead (s : System) (store : ProjectedStore) (requested : List JsString) : Call :=
  if requested.isEmpty then .settled (.ok [])
  else
    match translateAll codecs store requested "getMany" with
    | .ok _ => .reading store requested none none s.sets
    | .error error => .settled (.error error)

/-- Start a set; bytes the legacy format cannot express need the legacy row first. -/
def startSet (store : ProjectedStore) (key : JsString) (value : Bytes) : Call :=
  match projectAll codecs store [(key,value)] with
  | .ok projected =>
    if projected.any fun one => one.legacyValue.isNone then .projecting store projected
    else .writing store projected fun _ _ => none
  | .error error => .settled (.error error)

/-- Replace a call. -/
def System.put (s : System) (call : ℕ) (next : Call) : System :=
  {s with calls := s.calls.set call next}

/-- Bytes of a write by key. -/
def writtenBytes (projected : List Projection) (key : JsString) : Option Bytes :=
  InsertionMap.find (projected.map fun one => (one.key,one.value)) key

/-- A set takes effect. -/
def takeSet (s : System) (store : ProjectedStore) (projected : List Projection) (seen : LegacyRows) :
    System where
  store := persist carry (writeUpdates digest store seen projected) s.store
  calls := s.calls
  sets other key := if other = store ∧ (writtenBytes projected key).isSome then s.sets other key+1
    else s.sets other key
  lastSet other key := if other = store then (writtenBytes projected key).or (s.lastSet other key)
    else s.lastSet other key

/-- Execute one step. -/
def systemStep (s : System) : Action → Option System
  | .getMany store requested =>
    some {s with calls := s.calls++[startRead codecs s store requested]}
  | .set store key value => some {s with calls := s.calls++[startSet codecs store key value]}
  | .lookNative call =>
    match s.calls[call]? with
    | some (.reading store requested none legacy since) =>
      some (s.put call (arrived codecs digest store requested (some s.store.rows) legacy
        (if legacy.isSome then since else s.sets)))
    | _ => none
  | .lookLegacy call =>
    match s.calls[call]? with
    | some (.reading store requested native none since) =>
      some (s.put call (arrived codecs digest store requested native (some s.store.rows)
        (if native.isSome then since else s.sets)))
    | _ => none
  | .lookExisting call =>
    match s.calls[call]? with
    | some (.projecting store projected) => some (s.put call (.writing store projected s.store.rows))
    | _ => none
  | .write call =>
    match s.calls[call]? with
    | some (.mending store imported _) =>
      some ({s with store := persist carry [(store.nativeType,mirrorUpdates imported)] s.store}.put call
        (.settled (.ok (readResults imported))))
    | some (.writing store projected seen) =>
      some ((takeSet digest carry s store projected seen).put call (.settled (.ok [])))
    | _ => none

/-- A legacy store without calls in progress. -/
def System.start (store : KeyStore) : System := ⟨store,[],fun _ _ => 0,fun _ _ => none⟩

/-- A write takes effect in time: no set overtook the read it belongs to; the legacy row
of bytes the legacy format cannot express still has the fingerprint it was looked up
with; and a projection keeps its fingerprint in the store. -/
def InTime (s : System) : Action → Prop
  | .write call =>
    match s.calls[call]? with
    | some (.mending store imported since) =>
      ∀ one ∈ imported,one.mirror ≠ none → since store one.key = s.sets store one.key
    | some (.writing store projected seen) => ∀ one ∈ projected,
      (one.legacyValue = none →
        fingerprintLegacy digest (s.store.rows.read store.legacyType one.translated) =
          fingerprintLegacy digest (seen.read store.legacyType one.translated)) ∧
      ∀ value,one.legacyValue = some value → Kept digest carry store value
    | _ => True
  | _ => True

/-- A call on keys of a set. -/
def Action.Over (keys : ProjectedStore → JsString → Prop) : Action → Prop
  | .getMany store requested => ∀ key ∈ requested,keys store key
  | .set store key _ => keys store key
  | _ => True

/-- Bytes a key reads as. -/
def shownBytes (store : ProjectedStore) (rows : LegacyRows) (key translated : JsString) :
    Except StoreError (Option Bytes) :=
  (importKey codecs digest store rows key translated).map Imported.value

/-- A read that nothing interrupts returns what the key reads as. -/
theorem get_shownBytes {store : ProjectedStore} {key translated : JsString} (s : KeyStore)
    (hkey : codecs.legacyKey store key = .ok translated) :
    (get codecs digest carry store key s).1 = shownBytes codecs digest store s.rows key translated := by
  rw [get_eq codecs digest carry s hkey,shownBytes]
  cases importKey codecs digest store s.rows key translated <;> rfl

theorem shownBytes_congr {store : ProjectedStore} {rows last : LegacyRows} {key translated : JsString}
    (hnative : last store.nativeType key = rows store.nativeType key)
    (hlegacy : last store.legacyType translated = rows store.legacyType translated) :
    shownBytes codecs digest store last key translated = shownBytes codecs digest store rows key translated := by
  rw [shownBytes,importKey_congr codecs digest hnative hlegacy,shownBytes]

theorem Settled.shown {store : ProjectedStore} {rows : LegacyRows} {key translated : JsString}
    {value : Option Bytes} (h : Settled codecs digest store rows key translated value) :
    shownBytes codecs digest store rows key translated = .ok value := by
  rw [shownBytes,h]
  rfl

theorem beside_native (store : ProjectedStore) (native legacy : LegacyRows) (key : JsString) :
    beside store native legacy store.nativeType key = native store.nativeType key := if_pos rfl

theorem beside_legacy (store : ProjectedStore) (native legacy : LegacyRows) (key : JsString) :
    beside store native legacy store.legacyType key = legacy store.legacyType key :=
  if_neg fun h => native_ne rfl h.symm

/-- No set of the key took effect, and the key still reads the same from the same legacy row. -/
structure Unmoved (store : ProjectedStore) (key translated : JsString) (s s' : System) : Prop where
  /-- No set took effect. -/
  sets : s'.sets store key = s.sets store key
  /-- The legacy row stays. -/
  legacy : s'.store.rows store.legacyType translated = s.store.rows store.legacyType translated
  /-- The key reads the same. -/
  shown : shownBytes codecs digest store s'.store.rows key translated =
    shownBytes codecs digest store s.store.rows key translated

/-- What a lookup of a read still says of a key, as long as no set overtakes the read. -/
structure Current (store : ProjectedStore) (key translated : JsString) (s : System)
    (native legacy : Option LegacyRows) : Prop where
  /-- The mirror that was seen reads, beside the legacy row, as the key does. -/
  native : ∀ rows,native = some rows →
    shownBytes codecs digest store (beside store rows s.store.rows) key translated =
      shownBytes codecs digest store s.store.rows key translated
  /-- The legacy row that was seen is still there. -/
  legacy : ∀ rows,legacy = some rows →
    rows store.legacyType translated = s.store.rows store.legacyType translated

/-- What holds of a call in progress. -/
def CallHolds (keys : ProjectedStore → JsString → Prop) (s : System) : Call → Prop
  | .reading store requested native legacy since => (∀ key ∈ requested,keys store key) ∧
    (native.isSome ∨ legacy.isSome → ∀ key ∈ requested,∀ translated,
      codecs.legacyKey store key = .ok translated → since store key ≤ s.sets store key ∧
        (since store key = s.sets store key →
          Current codecs digest store key translated s native legacy))
  | .mending store imported since => (imported.map Imported.key).Nodup ∧ ∀ one ∈ imported,
    keys store one.key ∧ ∃ translated,codecs.legacyKey store one.key = .ok translated ∧
      since store one.key ≤ s.sets store one.key ∧
      (since store one.key = s.sets store one.key → ∃ seen : LegacyRows,
        importKey codecs digest store seen one.key translated = .ok one ∧
        seen store.legacyType translated = s.store.rows store.legacyType translated ∧
        shownBytes codecs digest store s.store.rows one.key translated = .ok one.value)
  | .projecting store projected => ∃ entries,Projected codecs store entries projected ∧
    ∀ entry ∈ entries,keys store entry.1
  | .writing store projected _ => ∃ entries,Projected codecs store entries projected ∧
    ∀ entry ∈ entries,keys store entry.1
  | .settled _ => True

/-- Either a set of the key took effect or the key is unmoved. -/
def Moves (keys : ProjectedStore → JsString → Prop) (s s' : System) : Prop :=
  ∀ store key translated,keys store key → codecs.legacyKey store key = .ok translated →
    s.sets store key < s'.sets store key ∨ Unmoved codecs digest store key translated s s'

variable {codecs digest} {keys : ProjectedStore → JsString → Prop} {s s' : System}

/-- A step of one call leaves what holds of the others. -/
theorem CallHolds.moves {call : Call} (h : CallHolds codecs digest keys s call)
    (hmoves : Moves codecs digest keys s s') : CallHolds codecs digest keys s' call := by
  cases call with
  | reading store requested native legacy since =>
    refine ⟨h.1,?_⟩
    intro hlooked key hkey translated htranslated
    obtain ⟨hle,hcurrent⟩ := h.2 hlooked key hkey translated htranslated
    obtain hset | hunmoved := hmoves store key translated (h.1 key hkey) htranslated
    · exact ⟨by omega,fun heq => by omega⟩
    · rw [hunmoved.sets]
      refine ⟨hle,fun heq => ?_⟩
      obtain ⟨hnative,hlegacy⟩ := hcurrent heq
      refine ⟨fun rows hrows => ?_,fun rows hrows => (hlegacy rows hrows).trans hunmoved.legacy.symm⟩
      rw [hunmoved.shown,← hnative rows hrows]
      apply shownBytes_congr
      · rw [beside_native,beside_native]
      · rw [beside_legacy,beside_legacy,hunmoved.legacy]
  | mending store imported since =>
    refine ⟨h.1,?_⟩
    intro one hone
    obtain ⟨hkey,translated,htranslated,hle,hseen⟩ := h.2 one hone
    refine ⟨hkey,translated,htranslated,?_⟩
    obtain hset | hunmoved := hmoves store one.key translated hkey htranslated
    · exact ⟨by omega,fun heq => by omega⟩
    · rw [hunmoved.sets]
      refine ⟨hle,fun heq => ?_⟩
      obtain ⟨seen,himport,hlegacy,hshown⟩ := hseen heq
      exact ⟨seen,himport,hlegacy.trans hunmoved.legacy.symm,hunmoved.shown.trans hshown⟩
  | projecting store projected => exact h
  | writing store projected seen => exact h
  | settled outcome => trivial

/-- A state without a write in between. -/
theorem moves_of_store (hstore : s'.store = s.store) (hsets : s'.sets = s.sets) : Moves codecs digest keys s s' :=
  fun _ _ _ _ _ => .inr ⟨by rw [hsets],by rw [hstore],by rw [hstore]⟩

/-- What holds of a read with both lookups holds of what it becomes. -/
theorem arrived_holds {store : ProjectedStore} {requested : List JsString}
    {native legacy : Option LegacyRows} {since : SetCounts}
    (h : CallHolds codecs digest keys s (.reading store requested native legacy since)) :
    CallHolds codecs digest keys s (arrived codecs digest store requested native legacy since) := by
  unfold arrived
  split
  · rename_i native legacy
    split
    · rename_i imported hread
      split
      · trivial
      · have hconverted := readProjected_ok codecs digest hread
        refine ⟨hconverted.keys ▸ hconverted.nodup,?_⟩
        intro one hone
        obtain ⟨translated,htranslated,himport⟩ := hconverted.found one hone
        have hrequested : one.key ∈ requested := hconverted.keys ▸ List.mem_map_of_mem hone
        obtain ⟨hle,hcurrent⟩ := h.2 (.inl rfl) one.key hrequested translated htranslated
        refine ⟨h.1 one.key hrequested,translated,htranslated,hle,?_⟩
        intro heq
        obtain ⟨hnative,hlegacy⟩ := hcurrent heq
        have hrow := hlegacy legacy rfl
        refine ⟨beside store native legacy,himport,by rw [beside_legacy,hrow],?_⟩
        have hsame : shownBytes codecs digest store (beside store native legacy) one.key translated =
            shownBytes codecs digest store (beside store native s.store.rows) one.key translated := by
          apply shownBytes_congr
          · rw [beside_native,beside_native]
          · rw [beside_legacy,beside_legacy,hrow]
        rw [← hnative native rfl,← hsame,shownBytes,himport]
        rfl
    · trivial
  · exact h

/-- A lookup of mirrors. -/
theorem lookNative_holds {store : ProjectedStore} {requested : List JsString}
    {legacy : Option LegacyRows} {since : SetCounts}
    (h : CallHolds codecs digest keys s (.reading store requested none legacy since)) :
    CallHolds codecs digest keys s (.reading store requested (some s.store.rows) legacy
      (if legacy.isSome then since else s.sets)) := by
  refine ⟨h.1,?_⟩
  intro _ key hkey translated htranslated
  have hnow : shownBytes codecs digest store (beside store s.store.rows s.store.rows) key translated =
      shownBytes codecs digest store s.store.rows key translated :=
    shownBytes_congr codecs digest (beside_native ..) (beside_legacy ..)
  cases legacy with
  | none =>
    refine ⟨le_refl _,fun _ => ⟨?_,fun rows hrows => by cases hrows⟩⟩
    rintro rows ⟨⟩
    exact hnow
  | some rows =>
    obtain ⟨hle,hcurrent⟩ := h.2 (.inr rfl) key hkey translated htranslated
    refine ⟨hle,fun heq => ⟨?_,(hcurrent heq).legacy⟩⟩
    rintro rows ⟨⟩
    exact hnow

/-- A lookup of legacy rows. -/
theorem lookLegacy_holds {store : ProjectedStore} {requested : List JsString}
    {native : Option LegacyRows} {since : SetCounts}
    (h : CallHolds codecs digest keys s (.reading store requested native none since)) :
    CallHolds codecs digest keys s (.reading store requested native (some s.store.rows)
      (if native.isSome then since else s.sets)) := by
  refine ⟨h.1,?_⟩
  intro _ key hkey translated htranslated
  have hnow (rows : LegacyRows) (hrows : some s.store.rows = some rows) :
      rows store.legacyType translated = s.store.rows store.legacyType translated := by
    rw [Option.some.inj hrows]
  cases native with
  | none => exact ⟨le_refl _,fun _ => ⟨fun rows hrows => (by cases hrows),hnow⟩⟩
  | some rows =>
    obtain ⟨hle,hcurrent⟩ := h.2 (.inl rfl) key hkey translated htranslated
    exact ⟨hle,fun heq => ⟨(hcurrent heq).native,hnow⟩⟩

/-- Mending mirrors in time moves no key. -/
theorem mending_unmoved (hcarry : CarriesBytes carry) {store : ProjectedStore}
    {imported : List Imported} {since : SetCounts} {call : ℕ}
    (h : CallHolds codecs digest keys s (.mending store imported since))
    (hcall : s.calls[call]? = some (.mending store imported since))
    (htime : InTime digest carry s (.write call)) {other : ProjectedStore} {key translated : JsString}
    (hkey : codecs.legacyKey other key = .ok translated)
    (hstore : s'.store = persist carry [(store.nativeType,mirrorUpdates imported)] s.store)
    (hsets : s'.sets = s.sets) : Unmoved codecs digest other key translated s s' := by
  have hmended := @persist_mirrorUpdates carry store imported h.1 s.store
  rw [← hstore] at hmended
  have hlegacy : s'.store.rows other.legacyType translated =
      s.store.rows other.legacyType translated :=
    hmended.frame _ _ fun ht => absurd ht.symm (native_ne rfl)
  refine ⟨by rw [hsets],hlegacy,?_⟩
  by_cases hwritten : other = store ∧ ∃ one ∈ imported,one.key = key ∧ one.mirror ≠ none
  · obtain ⟨rfl,one,hone,rfl,hmirror⟩ := hwritten
    simp only [InTime,hcall] at htime
    obtain ⟨-,translated',htranslated,-,hseen⟩ := h.2 one hone
    rw [hkey] at htranslated
    cases htranslated
    obtain ⟨seen,himport,hsame,hshown⟩ := hseen (htime one hone hmirror)
    obtain ⟨value,hvalue⟩ := Option.ne_none_iff_exists'.mp hmirror
    have hrow := hmended.mended one hone value hvalue
    have hsettled := importKey_settles codecs digest carry hcarry himport (hlegacy.trans hsame.symm)
      (by rw [hrow,hvalue]; rfl)
    rw [hsettled.shown,hshown]
  · refine shownBytes_congr codecs digest (hmended.frame _ _ ?_) hlegacy
    intro ht one hone heq
    by_contra hmirror
    exact hwritten ⟨ProjectedStore.nativeType_injective ht,one,hone,heq,hmirror⟩

/-- A set that takes effect in time writes as if it had looked the legacy rows up just now. -/
theorem writeUpdates_inTime {store : ProjectedStore} {projected : List Projection}
    {rows seen : LegacyRows} (h : ∀ one ∈ projected,one.legacyValue = none →
      fingerprintLegacy digest (rows.read store.legacyType one.translated) =
        fingerprintLegacy digest (seen.read store.legacyType one.translated)) :
    writeUpdates digest store seen projected = writeUpdates digest store rows projected := by
  have hbucket : nativeBucket digest store seen projected = nativeBucket digest store rows projected := by
    apply List.map_congr_left
    intro one hone
    unfold mirrorOf
    cases hvalue : one.legacyValue with
    | some value => rfl
    | none =>
      dsimp only
      rw [encodeNativeOnlyEnvelope,encodeNativeOnlyEnvelope,h one hone hvalue]
  rw [writeUpdates,writeUpdates,hbucket]

/-- Bytes of a write are those of its entries. -/
theorem Projected.writtenBytes {store : ProjectedStore} {entries : List (JsString × Bytes)}
    {projected : List Projection} (h : Projected codecs store entries projected) (key : JsString) :
    writtenBytes projected key = InsertionMap.find entries key := by
  rw [LegacyProjection.writtenBytes,h.listed]

/-- A set that takes effect in time: its keys read as its bytes, all others are unmoved. -/
theorem takeSet_cases (hcarry : CarriesBytes carry) (hdistinct : DistinctProjections codecs keys)
    {store : ProjectedStore} {projected : List Projection} {seen : LegacyRows} {call : ℕ}
    (h : CallHolds codecs digest keys s (.writing store projected seen))
    (hcall : s.calls[call]? = some (.writing store projected seen))
    (htime : InTime digest carry s (.write call)) {other : ProjectedStore} {key translated : JsString}
    (hin : keys other key) (hkey : codecs.legacyKey other key = .ok translated) :
    (s.sets other key < (takeSet digest carry s store projected seen).sets other key ∧
      ∃ bytes,(takeSet digest carry s store projected seen).lastSet other key = some bytes ∧
        shownBytes codecs digest other (takeSet digest carry s store projected seen).store.rows key
          translated = .ok (some bytes)) ∨
    ((takeSet digest carry s store projected seen).lastSet other key = s.lastSet other key ∧
      Unmoved codecs digest other key translated s (takeSet digest carry s store projected seen)) := by
  obtain ⟨entries,hprojected,hkeys⟩ := h
  simp only [InTime,hcall] at htime
  have hupdates := @writeUpdates_inTime digest store projected s.store.rows seen
    fun one hone => (htime one hone).1
  have hwritten := hprojected.written digest carry s.store
  rw [← hupdates] at hwritten
  by_cases hnamed : other = store ∧ key ∈ entries.map Prod.fst
  · obtain ⟨rfl,hmem⟩ := hnamed
    have hkeeps : (Operation.setMany other entries).Keeps codecs digest carry := by
      intro entry hentry value hvalue
      rw [← hprojected.listed] at hentry
      obtain ⟨one,hone,rfl⟩ := List.mem_map.mp hentry
      have hprojection := hprojected.legacyValue one hone
      exact (htime one hone).2 value (Except.ok.inj (hprojection.symm.trans hvalue))
    have hsettled := settled_of_write codecs digest carry hcarry hkey hprojected hwritten hkeeps hmem
    cases hfind : InsertionMap.find entries key with
    | none => exact absurd hmem (InsertionMap.find_eq_none_iff.mp hfind)
    | some bytes =>
      rw [hfind] at hsettled
      left
      have hbytes : writtenBytes projected key = some bytes := by
        rw [hprojected.writtenBytes,hfind]
      refine ⟨by simp [takeSet,hbytes],bytes,by simp [takeSet,hbytes],hsettled.shown⟩
  · right
    have hnot : ¬(other = store ∧ (writtenBytes projected key).isSome = true) := by
      rintro ⟨rfl,hsome⟩
      rw [hprojected.writtenBytes] at hsome
      obtain ⟨bytes,hbytes⟩ := Option.isSome_iff_exists.mp hsome
      apply hnamed ⟨rfl,?_⟩
      by_contra hmem
      rw [InsertionMap.find_eq_none_iff.mpr hmem] at hbytes
      cases hbytes
    have hlast : (takeSet digest carry s store projected seen).lastSet other key =
        s.lastSet other key := by
      simp only [takeSet]
      split
      · rename_i hstore
        cases hbytes : writtenBytes projected key with
        | none => rfl
        | some bytes => exact absurd ⟨hstore,by rw [hbytes]; rfl⟩ hnot
      · rfl
    have hnative : (takeSet digest carry s store projected seen).store.rows other.nativeType key =
        s.store.rows other.nativeType key := by
      refine hwritten.frame _ _ ?_ fun ht => absurd ht (native_ne rfl)
      intro ht hmem
      rw [hprojected.keys] at hmem
      exact hnamed ⟨ProjectedStore.nativeType_injective ht,hmem⟩
    have hlegacy : (takeSet digest carry s store projected seen).store.rows other.legacyType translated =
        s.store.rows other.legacyType translated := by
      refine hwritten.frame _ _ (fun ht => absurd ht.symm (native_ne rfl)) ?_
      intro ht hmem
      obtain rfl := ProjectedStore.legacyType_injective ht
      obtain ⟨one,hone,rfl⟩ := List.mem_map.mp hmem
      have hone' : one.key ∈ entries.map Prod.fst := by
        rw [← hprojected.keys]
        exact List.mem_map_of_mem hone
      obtain ⟨entry,hentry,hentryKey⟩ := List.mem_map.mp hone'
      have hsame := hdistinct _ _ _ _ hin (hentryKey ▸ hkeys entry hentry) hkey
        (hprojected.translated one hone)
      exact hnamed ⟨rfl,hsame ▸ hone'⟩
    exact ⟨hlast,by simp [takeSet,hnot],hlegacy,shownBytes_congr codecs digest hnative hlegacy⟩

/-- Every call holds, and a key that was set reads as its last set. -/
structure Consistent (codecs : Codecs) (digest : Digest) (keys : ProjectedStore → JsString → Prop)
    (s : System) : Prop where
  /-- What holds of the calls. -/
  calls : ∀ call ∈ s.calls,CallHolds codecs digest keys s call
  /-- Keys read as they were set. -/
  exact : ∀ store key translated bytes,keys store key → codecs.legacyKey store key = .ok translated →
    s.lastSet store key = some bytes →
      shownBytes codecs digest store s.store.rows key translated = .ok (some bytes)

/-- A legacy store without calls in progress. -/
theorem consistent_start (store : KeyStore) : Consistent codecs digest keys (.start store) :=
  ⟨fun call hcall => (by cases hcall),fun _ _ _ _ _ _ hlast => by cases hlast⟩

/-- Replacing a call by one that holds. -/
theorem Consistent.put (h : Consistent codecs digest keys s) {call : ℕ} {next : Call}
    (hnext : CallHolds codecs digest keys s next) : Consistent codecs digest keys (s.put call next) := by
  refine ⟨?_,h.exact⟩
  intro other hother
  have hmoves : Moves codecs digest keys s (s.put call next) := moves_of_store rfl rfl
  obtain hold | rfl := List.mem_or_eq_of_mem_set hother
  · exact (h.calls other hold).moves hmoves
  · exact hnext.moves hmoves

/-- A new call that holds. -/
theorem Consistent.add (h : Consistent codecs digest keys s) {next : Call}
    (hnext : CallHolds codecs digest keys s next) :
    Consistent codecs digest keys {s with calls := s.calls++[next]} := by
  refine ⟨?_,h.exact⟩
  intro other hother
  have hmoves : Moves codecs digest keys s {s with calls := s.calls++[next]} := moves_of_store rfl rfl
  obtain hold | hnew := List.mem_append.mp hother
  · exact (h.calls other hold).moves hmoves
  · rw [List.mem_singleton.mp hnew]
    exact hnext.moves hmoves

/-- A step in time keeps calls and keys consistent. -/
theorem Consistent.step (h : Consistent codecs digest keys s) (hcarry : CarriesBytes carry)
    (hdistinct : DistinctProjections codecs keys) {action : Action} (hover : action.Over keys)
    (htime : InTime digest carry s action) (hstep : systemStep codecs digest carry s action = some s') :
    Consistent codecs digest keys s' := by
  cases action with
  | getMany store requested =>
    cases hstep
    apply h.add
    unfold startRead
    split
    · trivial
    · split
      · exact ⟨hover,fun hlooked => by simp at hlooked⟩
      · trivial
  | set store key value =>
    cases hstep
    apply h.add
    unfold startSet
    split
    · rename_i projected hproject
      have hprojected := projectAll_ok codecs hproject
      have hkeys : ∀ entry ∈ [(key,value)],keys store entry.1 := by
        intro entry hentry
        rw [List.mem_singleton.mp hentry]
        exact hover
      split
      · exact ⟨[(key,value)],hprojected,hkeys⟩
      · exact ⟨[(key,value)],hprojected,hkeys⟩
    · trivial
  | lookNative call =>
    simp only [systemStep] at hstep
    split at hstep
    · rename_i store requested legacy since hcall
      cases hstep
      exact h.put (arrived_holds (lookNative_holds (h.calls _ (List.mem_of_getElem? hcall))))
    · cases hstep
  | lookLegacy call =>
    simp only [systemStep] at hstep
    split at hstep
    · rename_i store requested native since hcall
      cases hstep
      exact h.put (arrived_holds (lookLegacy_holds (h.calls _ (List.mem_of_getElem? hcall))))
    · cases hstep
  | lookExisting call =>
    simp only [systemStep] at hstep
    split at hstep
    · rename_i store projected hcall
      cases hstep
      have hholds := h.calls _ (List.mem_of_getElem? hcall)
      have hnext : CallHolds codecs digest keys s (.writing store projected s.store.rows) := hholds
      exact h.put hnext
    · cases hstep
  | write call =>
    simp only [systemStep] at hstep
    split at hstep
    · rename_i store imported since hcall
      cases hstep
      have hholds := h.calls _ (List.mem_of_getElem? hcall)
      have hunmoved {other : ProjectedStore} {key translated : JsString}
          (hkey : codecs.legacyKey other key = .ok translated) :
          Unmoved codecs digest other key translated s
            ⟨persist carry [(store.nativeType,mirrorUpdates imported)] s.store,s.calls,s.sets,s.lastSet⟩ :=
        mending_unmoved carry hcarry hholds hcall htime hkey rfl rfl
      refine Consistent.put ⟨?_,?_⟩ trivial
      · intro other hother
        exact (h.calls other hother).moves fun _ _ _ _ hkey => .inr (hunmoved hkey)
      · intro other key translated bytes hin hkey hlast
        rw [(hunmoved hkey).shown]
        exact h.exact other key translated bytes hin hkey hlast
    · rename_i store projected seen hcall
      cases hstep
      have hholds := h.calls _ (List.mem_of_getElem? hcall)
      refine Consistent.put ⟨?_,?_⟩ trivial
      · intro other hother
        refine (h.calls other hother).moves ?_
        intro other key translated hin hkey
        obtain hset | hkept := takeSet_cases carry hcarry hdistinct hholds hcall htime hin hkey
        · exact .inl hset.1
        · exact .inr hkept.2
      · intro other key translated bytes hin hkey hlast
        obtain ⟨-,written,hwritten,hshown⟩ | ⟨hsame,hunmoved⟩ :=
          takeSet_cases carry hcarry hdistinct hholds hcall htime hin hkey
        · rw [hwritten] at hlast
          cases hlast
          exact hshown
        · rw [hsame] at hlast
          rw [hunmoved.shown]
          exact h.exact other key translated bytes hin hkey hlast
    · cases hstep

/-- In every interleaving of calls whose writes all take effect in time, a key reads as
the last set that took effect, and no import of a legacy row changes what a key reads as. -/
theorem interleaved_calls_exact (codecs : Codecs) (digest : Digest) (carry : String → Value → Value)
    (keys : ProjectedStore → JsString → Prop) (start : KeyStore) (actions : List Action) (s : System)
    (hcarry : CarriesBytes carry) (hdistinct : DistinctProjections codecs keys)
    (hover : ∀ action ∈ actions,action.Over keys)
    (htime : Guarded (systemStep codecs digest carry) (InTime digest carry) (.start start) actions)
    (hrun : LabelledRuns.run (systemStep codecs digest carry) (.start start) actions = some s) :
    (∀ store key translated bytes,keys store key → codecs.legacyKey store key = .ok translated →
      s.lastSet store key = some bytes →
        (get codecs digest carry store key s.store).1 = .ok (some bytes)) ∧
    ∀ call store imported since s',s.calls[call]? = some (.mending store imported since) →
      InTime digest carry s (.write call) → systemStep codecs digest carry s (.write call) = some s' →
      ∀ other key translated,codecs.legacyKey other key = .ok translated →
        (get codecs digest carry other key s'.store).1 = (get codecs digest carry other key s.store).1 := by
  have hconsistent : Consistent codecs digest keys s := by
    have hguarded := htime.and_labels hover
    exact run_guarded_invariant (fun before action after hbefore hguard hstep =>
      hbefore.step carry hcarry hdistinct hguard.2 hguard.1 hstep) hguarded hrun (consistent_start start)
  constructor
  · intro store key translated bytes hin hkey hlast
    rw [get_shownBytes codecs digest carry s.store hkey]
    exact hconsistent.exact store key translated bytes hin hkey hlast
  · intro call store imported since s' hcall hnow hstep other key translated hkey
    have hholds := hconsistent.calls _ (List.mem_of_getElem? hcall)
    simp only [systemStep,hcall] at hstep
    cases hstep
    rw [get_shownBytes codecs digest carry s.store hkey,get_shownBytes codecs digest carry _ hkey]
    have hunmoved : Unmoved codecs digest other key translated s
        ⟨persist carry [(store.nativeType,mirrorUpdates imported)] s.store,s.calls,s.sets,s.lastSet⟩ :=
      mending_unmoved carry hcarry hholds hcall hnow hkey rfl rfl
    exact hunmoved.shown

end Steps

/-- Whether a call is settled. -/
def Call.isSettled : Call → Bool
  | .settled _ => true
  | _ => false

/-- Codecs whose legacy rows hold the bytes, but for those that begin with zero. -/
def byteCodecs : Codecs where
  legacyKey _ key := .ok key
  fromLegacy _ _ value :=
    match value.toBytes with
    | some data => .ok (some data)
    | none => .error (.typeError "legacy session record must be an object")
  toLegacy _ _ data := if data.head? = some 0 then .ok none else .ok (some (.bytes data))

/-- A store that gives values back as they were set. -/
def plainCarry (_ : String) (value : Value) : Value := value

/-- A store with one legacy row. -/
def oneSession : KeyStore :=
  ⟨fun type key => if type = "session" ∧ key = regular then some (.bytes [1]) else none,0⟩

/-- What is left of a run: whether all calls settled, the last set of the key, and what a
later read of it returns. -/
def outcomeOf (start : KeyStore) (actions : List Action) : Option (Bool × Option Bytes × Option (Option Bytes)) :=
  (LabelledRuns.run (systemStep byteCodecs leafDigest plainCarry) (.start start) actions).map fun s =>
    (s.calls.all Call.isSettled,s.lastSet .session regular,
      (get byteCodecs leafDigest plainCarry .session regular s.store).1.toOption)

/-- Make a set of a session the legacy format cannot express, look up its legacy row and
write it. -/
def nativeOnlySet : List Action :=
  [.set .session regular [0,2],.lookExisting 0,.write 0]

/-- A set that nothing overtakes hides the legacy row. -/
theorem interleaved_calls_exact_alone :
    (get byteCodecs leafDigest plainCarry .session regular
      (after (systemStep byteCodecs leafDigest plainCarry) (.start oneSession) nativeOnlySet).store).1 =
        .ok (some [0,2]) := by
  have hover : ∀ action ∈ nativeOnlySet,action.Over fun _ _ => True := by
    simp [nativeOnlySet,Action.Over]
  have hdistinct : DistinctProjections byteCodecs fun _ _ => True := by
    intro store key other translated _ _ hkey hother
    exact Except.ok.inj (hkey.trans hother.symm)
  have htime : Guarded (systemStep byteCodecs leafDigest plainCarry) (InTime leafDigest plainCarry)
      (.start oneSession) nativeOnlySet := by
    refine ⟨trivial,fun made hmade => ⟨trivial,fun looked hlooked => ⟨?_,fun _ _ => trivial⟩⟩⟩
    cases hmade
    cases hlooked
    simp [InTime,System.put]
  have hexact := interleaved_calls_exact byteCodecs leafDigest plainCarry (fun _ _ => True) oneSession
    nativeOnlySet _ (fun _ _ => rfl) hdistinct hover htime (run_after (by decide +kernel))
  exact hexact.1 .session regular regular [0,2] trivial rfl (by decide +kernel)

/-- A read imports the legacy row over a session that was set meanwhile; and a session
the legacy format cannot express is written beside a legacy row that was set meanwhile. -/
theorem interleaved_calls_lost :
    outcomeOf oneSession [.getMany .session [regular],.lookNative 0,.lookLegacy 0,
        .set .session regular [0,2],.lookExisting 1,.write 1,.write 0] =
      some (true,some [0,2],some (some [1])) ∧
    outcomeOf emptyStore [.set .session regular [0,2],.lookExisting 0,.set .session regular [3],
        .write 1,.write 0] = some (true,some [0,2],some (some [3])) :=
  ⟨by decide +kernel,by decide +kernel⟩

end Baileyrs.LegacyProjection
