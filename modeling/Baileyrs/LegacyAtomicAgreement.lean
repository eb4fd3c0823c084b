import Baileyrs.LegacyAtomic

/-!
# Legacy atomic operations agree with the memory store

Every row of the four namespaces is owned by one key of the adapter, so a
write through the adapter changes what one key reads as and nothing else. A
change touches only rows that were loaded for it. The rows the adapter reads
after the transaction are therefore those of the change over all rows.
-/

namespace Baileyrs.LegacyProjection

open JsString AtomicStore SnapshotRows LegacyValues LegacyMirror

/-- Types of the rows of a route. -/
def ownedTypes : Route → List String
  | .projected store => [store.nativeType,store.legacyType]
  | .raw type => [type]

/-- The four namespaces with their routes. -/
theorem routeOf_cases (store : AtomicNamespace) :
    (store = syncVersion ∧ routeOf store = .projected .syncVersion) ∨
    (store = tcToken ∧ routeOf store = .projected .tcToken) ∨
    (store = mutationMac ∧ routeOf store = .raw "bridge-mutation-mac") ∨
    (store = metaRows ∧ routeOf store = .raw "bridge-meta") := by
  obtain ⟨name,hname⟩ := store
  have hnames := hname
  simp only [nativeAtomicNamespaces,List.map_cons,List.map_nil,List.mem_cons,List.not_mem_nil,
    or_false] at hnames
  rcases hnames with rfl | rfl | rfl | rfl
  · exact .inl ⟨rfl,rfl⟩
  · exact .inr (.inr (.inl ⟨rfl,rfl⟩))
  · exact .inr (.inl ⟨rfl,rfl⟩)
  · exact .inr (.inr (.inr ⟨rfl,rfl⟩))

/-- No type of rows belongs to two namespaces. -/
theorem ownedTypes_disjoint {store other : AtomicNamespace} {type : String}
    (h : type ∈ ownedTypes (routeOf store)) (hother : type ∈ ownedTypes (routeOf other)) : store = other := by
  have hdisjoint : ∀ first second : Route, first ≠ second →
      first ∈ [Route.projected .syncVersion,.projected .tcToken,.raw "bridge-mutation-mac",
        .raw "bridge-meta"] →
      second ∈ [Route.projected .syncVersion,.projected .tcToken,.raw "bridge-mutation-mac",
        .raw "bridge-meta"] → ∀ type ∈ ownedTypes first, type ∉ ownedTypes second := by
    intro first second hne hfirst hsecond
    simp only [List.mem_cons,List.not_mem_nil,or_false] at hfirst hsecond
    rcases hfirst with rfl | rfl | rfl | rfl <;> rcases hsecond with rfl | rfl | rfl | rfl <;>
      first | exact absurd rfl hne | decide
  rcases routeOf_cases store with ⟨hs,hr⟩ | ⟨hs,hr⟩ | ⟨hs,hr⟩ | ⟨hs,hr⟩ <;>
    rcases routeOf_cases other with ⟨ho,hq⟩ | ⟨ho,hq⟩ | ⟨ho,hq⟩ | ⟨ho,hq⟩ <;>
    rw [hs,ho] <;> rw [hr] at h <;> rw [hq] at hother <;>
    exact absurd hother (hdisjoint _ _ (by simp) (by simp) (by simp) type h)

/-- A row that keeps part of a record. -/
def Owns (store : AtomicNamespace) (key : JsString) (type : String) (row : JsString) : Prop :=
  row = key ∧ type ∈ ownedTypes (routeOf store)

section Adapter

variable (codecs : Codecs) (digest : Digest) (carry : String → Value → Value)

/-- The two projected namespaces use native keys as legacy keys. -/
def Passthrough : Prop :=
  ∀ key, codecs.legacyKey .syncVersion key = .ok key ∧ codecs.legacyKey .tcToken key = .ok key

variable {codecs} in
theorem Passthrough.legacyKey (h : Passthrough codecs) {store : AtomicNamespace}
    {projected : ProjectedStore} (hroute : routeOf store = .projected projected) (key : JsString) :
    codecs.legacyKey projected key = .ok key := by
  rcases routeOf_cases store with ⟨_,hr⟩ | ⟨_,hr⟩ | ⟨_,hr⟩ | ⟨_,hr⟩ <;> rw [hr] at hroute <;> cases hroute
  · exact (h key).1
  · exact (h key).2

/-- The adapter reads a key as a value, without a write. -/
def Shows (s : KeyStore) (store : AtomicNamespace) (key : JsString) (value : Option Bytes) : Prop :=
  match routeOf store with
  | .projected projected => Settled codecs digest projected s.rows key key value
  | .raw type => s.rows type key = value.map Value.bytes

/-- The adapter reads all rows of the four namespaces as given. -/
def Reads (s : KeyStore) (rows : JsString → Option Bytes) : Prop :=
  ∀ (store : AtomicNamespace) key, Shows codecs digest s store key (rows (rowKey store key))

/-- What a key reads as depends on the rows it owns. -/
theorem Shows.congr {s last : KeyStore} {store : AtomicNamespace} {key : JsString}
    {value : Option Bytes} (h : Shows codecs digest s store key value)
    (hrows : ∀ type row, Owns store key type row → last.rows type row = s.rows type row) :
    Shows codecs digest last store key value := by
  unfold Shows at h ⊢
  unfold Owns at hrows
  cases hroute : routeOf store with
  | projected projected =>
    rw [hroute] at h hrows
    have hnative := hrows projected.nativeType key ⟨rfl,List.mem_cons_self⟩
    have hlegacy := hrows projected.legacyType key ⟨rfl,List.mem_cons_of_mem _ List.mem_cons_self⟩
    change Settled codecs digest projected last.rows key key value
    rw [Settled,importKey_congr codecs digest hnative hlegacy]
    exact h
  | raw type =>
    rw [hroute] at h hrows
    exact (hrows type key ⟨rfl,List.mem_cons_self⟩).trans h

/-- What an operation on one key does. -/
structure Puts (store : AtomicNamespace) (key : JsString) (value : Option Bytes) (s last : KeyStore) :
    Prop where
  /-- The key reads as the value. -/
  shows : Shows codecs digest last store key value
  /-- Rows of other keys stay as they are. -/
  frame : ∀ type row, ¬Owns store key type row → last.rows type row = s.rows type row

/-- Then all rows read as before, but for that key. -/
theorem Puts.reads {s last : KeyStore} {store : AtomicNamespace} {key : JsString}
    {value : Option Bytes} {rows : JsString → Option Bytes}
    (h : Puts codecs digest store key value s last) (hreads : Reads codecs digest s rows) :
    Reads codecs digest last (Function.update rows (rowKey store key) value) := by
  intro other id
  by_cases heq : rowKey other id = rowKey store key
  · obtain ⟨hstore,hkey⟩ := rowKey_inj heq
    have hsame : other = store := Subtype.ext hstore
    subst hsame hkey
    rw [Function.update_self]
    exact h.shows
  · rw [Function.update_of_ne heq]
    refine (hreads other id).congr codecs digest fun type row howns => h.frame type row ?_
    rintro ⟨hrow,htype⟩
    have hstore := ownedTypes_disjoint howns.2 htype
    exact heq (by rw [hstore,←howns.1,hrow])

/-- A value the adapter can write: its projection exists and keeps its fingerprint. -/
def Settable (store : AtomicNamespace) (key : JsString) (value : Bytes) : Prop :=
  match routeOf store with
  | .projected projected => ∃ result, codecs.toLegacy projected key value = .ok result ∧
    ∀ legacyValue, result = some legacyValue → Kept digest carry projected legacyValue
  | .raw _ => True

/-- A single raw row is written. -/
theorem persist_raw (type : String) (key : JsString) (value : Value) (s : KeyStore) :
    (persist carry [(type,[(key,value)])] s).rows = putRow carry s.rows type key value := by
  rw [persist_rows]
  rfl

variable {codecs} in
theorem adapterSet_puts (hpass : Passthrough codecs) (hcarry : CarriesBytes carry)
    {store : AtomicNamespace} {key : JsString} {value : Bytes} (s : KeyStore)
    (h : Settable codecs digest carry store key value) :
    ∃ last, adapterSet codecs digest carry store key value s = .ok last ∧
      Puts codecs digest store key (some value) s last := by
  unfold Settable at h
  unfold adapterSet
  cases hroute : routeOf store with
  | projected projected =>
    rw [hroute] at h
    obtain ⟨result,htoLegacy,hkept⟩ := h
    have hkey := hpass.legacyKey hroute key
    have hproject : projectAll codecs projected [(key,value)] = .ok [⟨key,value,key,result⟩] := by
      unfold projectAll project
      rw [List.mapM_cons,List.mapM_nil,hkey,htoLegacy]
      rfl
    rcases setMany_cases codecs digest carry projected [(key,value)] s with
      ⟨found,hfound,hprojected,hok,hwritten⟩ | ⟨error,herror,_⟩
    · rw [hproject] at hfound
      cases hfound
      have hkeeps : (Operation.setMany projected [(key,value)]).Keeps codecs digest carry := by
        intro entry hentry legacyValue hvalue
        rw [List.mem_singleton.mp hentry,htoLegacy] at hvalue
        exact hkept legacyValue (Except.ok.inj hvalue)
      have hsettled := settled_of_write codecs digest carry hcarry hkey hprojected hwritten hkeeps
        List.mem_cons_self
      have hfind : InsertionMap.find [(key,value)] key = some value := by
        simp [InsertionMap.find]
      rw [hfind] at hsettled
      refine ⟨(setMany codecs digest carry projected [(key,value)] s).2,?_,?_,fun type row howns => ?_⟩
      · simp only [committed,hok,Except.map]
      · unfold Shows
        rw [hroute]
        exact hsettled
      · unfold Owns at howns
        rw [hroute] at howns
        refine hwritten.frame type row (fun ht hmem => ?_) fun ht hmem => ?_
        · exact howns ⟨List.mem_singleton.mp hmem,ht ▸ List.mem_cons_self⟩
        · exact howns ⟨List.mem_singleton.mp hmem,ht ▸ List.mem_cons_of_mem _ List.mem_cons_self⟩
    · rw [hproject] at herror
      cases herror
  | raw type =>
    refine ⟨_,rfl,?_,fun other row howns => ?_⟩
    · unfold Shows
      rw [hroute]
      dsimp only
      rw [persist_raw,putRow,if_pos ⟨rfl,rfl⟩]
      exact congrArg some (hcarry _ _)
    · unfold Owns at howns
      rw [hroute] at howns
      rw [persist_raw,putRow,if_neg]
      rintro ⟨rfl,rfl⟩
      exact howns ⟨rfl,List.mem_cons_self⟩

variable {codecs} in
theorem adapterDelete_puts (hpass : Passthrough codecs) {store : AtomicNamespace} {key : JsString}
    (s : KeyStore) : ∃ last, adapterDelete codecs carry store key s = .ok last ∧
      Puts codecs digest store key none s last := by
  unfold adapterDelete
  cases hroute : routeOf store with
  | projected projected =>
    have hkey := hpass.legacyKey hroute key
    have htranslate : translateAll codecs projected [key] "deleteMany" = .ok [(key,key)] := by
      unfold translateAll translate
      rw [List.mapM_cons,List.mapM_nil,hkey]
      rfl
    rcases deleteMany_cases codecs carry projected [key] s with
      ⟨found,hfound,htranslated,hok,hdeleted⟩ | ⟨error,herror,_⟩
    · rw [htranslate] at hfound
      cases hfound
      have hsettled := settled_of_delete codecs digest hkey htranslated hdeleted List.mem_cons_self
      refine ⟨(deleteMany codecs carry projected [key] s).2,?_,?_,fun type row howns => ?_⟩
      · simp only [committed,hok,Except.map]
      · unfold Shows
        rw [hroute]
        exact hsettled
      · unfold Owns at howns
        rw [hroute] at howns
        refine hdeleted.frame type row (fun ht hmem => ?_) fun ht hmem => ?_
        · exact howns ⟨List.mem_singleton.mp hmem,ht ▸ List.mem_cons_self⟩
        · exact howns ⟨List.mem_singleton.mp hmem,ht ▸ List.mem_cons_of_mem _ List.mem_cons_self⟩
    · rw [htranslate] at herror
      cases herror
  | raw type =>
    refine ⟨_,rfl,?_,fun other row howns => ?_⟩
    · unfold Shows
      rw [hroute]
      dsimp only
      rw [persist_raw,putRow,if_pos ⟨rfl,rfl⟩]
      rfl
    · unfold Owns at howns
      rw [hroute] at howns
      rw [persist_raw,putRow,if_neg]
      rintro ⟨rfl,rfl⟩
      exact howns ⟨rfl,List.mem_cons_self⟩

/-- Rows of the requested keys that exist. -/
def present (rows : JsString → Option Bytes) (store : AtomicNamespace) (requested : List JsString) :
    List (JsString × Bytes) :=
  requested.filterMap fun key => (rows (rowKey store key)).map fun value => (key,value)

/-- Settled keys are read without a write. -/
theorem getMany_settled {store : ProjectedStore} {requested : List JsString} {s : KeyStore}
    {values : JsString → Option Bytes} (hnodup : requested.Nodup) (hkey : ∀ key, codecs.legacyKey store key = .ok key)
    (h : ∀ key, Settled codecs digest store s.rows key key (values key)) :
    getMany codecs digest carry store requested s =
      (.ok (requested.filterMap fun key => (values key).map fun value => (key,value)),s) := by
  have htranslate : translateAll codecs store requested "getMany" =
      .ok (requested.map fun key => (key,key)) := by
    have hpairs : translate codecs store requested = .ok (requested.map fun key => (key,key)) := by
      unfold translate
      clear hnodup
      induction requested with
      | nil => rfl
      | cons key rest ih =>
        rw [List.mapM_cons,hkey,ih]
        rfl
    have hsecond : (requested.map fun key => (key,key)).map Prod.snd = requested := by
      rw [List.map_map]
      exact List.map_id requested
    have hunique : ∀ label, uniqueKeys requested label = .ok () := fun label => uniqueKeys_ok.mpr hnodup
    unfold translateAll
    rw [hunique,hpairs]
    simp only [bind,Except.bind]
    rw [hsecond,hunique]
    rfl
  have hread : readProjected codecs digest store requested s.rows =
      .ok (requested.map fun key => ⟨key,values key,none⟩) := by
    unfold readProjected
    rw [htranslate]
    simp only [bind,Except.bind]
    clear hnodup htranslate
    induction requested with
    | nil => rfl
    | cons key rest ih =>
      rw [List.map_cons,List.mapM_cons,h key,ih]
      rfl
  have hupdates : mirrorUpdates (requested.map fun key => ⟨key,values key,none⟩) = [] := by
    unfold mirrorUpdates
    rw [List.filterMap_map,List.filterMap_eq_nil_iff]
    exact fun key _ => rfl
  have hresults : readResults (requested.map fun key => ⟨key,values key,none⟩) =
      requested.filterMap fun key => (values key).map fun value => (key,value) := by
    unfold readResults
    rw [List.filterMap_map]
    rfl
  unfold getMany
  rw [hread]
  dsimp only
  rw [hupdates,hresults]
  split
  · rename_i hempty
    rw [List.isEmpty_iff] at hempty
    rw [hempty]
    rfl
  · rfl

variable {codecs digest} in
/-- The adapter reads what the rows show, without a write. -/
theorem adapterGetMany_reads (hpass : Passthrough codecs) {s : KeyStore}
    {rows : JsString → Option Bytes} (h : Reads codecs digest s rows) (store : AtomicNamespace)
    {requested : List JsString} (hnodup : requested.Nodup) :
    adapterGetMany codecs digest carry store requested s = .ok (present rows store requested,s) := by
  unfold adapterGetMany
  have hshows := h store
  unfold Shows at hshows
  cases hroute : routeOf store with
  | projected projected =>
    rw [hroute] at hshows
    dsimp only
    rw [getMany_settled codecs digest carry hnodup (hpass.legacyKey hroute) hshows]
    rfl
  | raw type =>
    rw [hroute] at hshows
    have hunique : uniqueKeys requested (shown store++" getMany") = .ok () := uniqueKeys_ok.mpr hnodup
    have hread : readRaw store type s.rows requested = .ok (present rows store requested) := by
      clear hnodup hunique
      unfold present
      induction requested with
      | nil => rfl
      | cons key rest ih =>
        have hrow : s.rows.read type key = ((rows (rowKey store key)).map Value.bytes).getD .null := by
          rw [LegacyRows.read,hshows key]
        rw [readRaw,hrow,ih,List.filterMap_cons]
        cases rows (rowKey store key) with
        | none => rfl
        | some bytes => rfl
    dsimp only
    rw [hunique,hread]
    rfl

/-- Rows that are loaded. -/
def Loaded (stores : List (AtomicNamespace × List JsString)) (row : JsString) : Prop :=
  ∃ part ∈ stores, ∃ key ∈ part.2, row = rowKey part.1 key

/-- Loading one namespace sets its present rows. -/
theorem loadPart_get (rows : JsString → Option Bytes) (store : AtomicNamespace)
    (requested : List JsString) (tracked : TrackedRows) (row : JsString) : ((present rows store requested).foldl
      (fun tracked pair => tracked.set (rowKey store pair.1) (pair.2,false)) tracked).get row =
        if (∃ key ∈ requested, row = rowKey store key) ∧ (rows row).isSome = true
        then (rows row).map fun value => (value,false) else tracked.get row := by
  unfold present
  induction requested generalizing tracked with
  | nil => simp
  | cons key rest ih =>
    rw [List.filterMap_cons]
    cases hvalue : rows (rowKey store key) with
    | none =>
      rw [Option.map_none]
      dsimp only
      rw [ih]
      by_cases hrow : row = rowKey store key
      · subst hrow
        simp [hvalue]
      · simp [hrow]
    | some value =>
      rw [Option.map_some]
      dsimp only
      rw [List.foldl_cons,ih,InsertionMap.get_set]
      by_cases hrow : rowKey store key = row
      · subst hrow
        simp [hvalue]
      · have hother : ¬row = rowKey store key := fun h => hrow h.symm
        simp [hrow,hother]

variable {codecs digest} in
/-- Loading gives the loaded rows that exist, and writes nothing. -/
theorem loadRows_reads (hpass : Passthrough codecs) {s : KeyStore} {rows : JsString → Option Bytes}
    (h : Reads codecs digest s rows) {stores : List (AtomicNamespace × List JsString)}
    (hnodup : ∀ part ∈ stores, part.2.Nodup) (tracked : TrackedRows) :
    ∃ before, loadRows codecs digest carry stores tracked s = .ok (before,s) ∧
      ∀ row, (Loaded stores row → (rows row).isSome = true →
          before.get row = (rows row).map fun value => (value,false)) ∧
        (¬(Loaded stores row ∧ (rows row).isSome = true) → before.get row = tracked.get row) := by
  induction stores generalizing tracked with
  | nil =>
    refine ⟨tracked,rfl,fun row => ⟨fun hloaded => ?_,fun _ => rfl⟩⟩
    obtain ⟨part,hpart,_⟩ := hloaded
    cases hpart
  | cons part rest ih =>
    obtain ⟨before,hload,hbefore⟩ := ih (fun other hother => hnodup other (List.mem_cons_of_mem _ hother))
      ((present rows part.1 part.2).foldl
        (fun tracked pair => tracked.set (rowKey part.1 pair.1) (pair.2,false)) tracked)
    refine ⟨before,?_,fun row => ⟨fun hloaded hsome => ?_,fun hno => ?_⟩⟩
    · obtain ⟨store,requested⟩ := part
      rw [loadRows,adapterGetMany_reads carry hpass h store (hnodup _ List.mem_cons_self)]
      exact hload
    · by_cases hrest : Loaded rest row
      · exact (hbefore row).1 hrest hsome
      · obtain ⟨other,hother,key,hkey,hrow⟩ := hloaded
        rcases List.mem_cons.mp hother with rfl | hother
        · rw [(hbefore row).2 fun hboth => hrest hboth.1,loadPart_get,if_pos ⟨⟨key,hkey,hrow⟩,hsome⟩]
        · exact absurd ⟨other,hother,key,hkey,hrow⟩ hrest
    · have hnorest : ¬(Loaded rest row ∧ (rows row).isSome = true) := by
        rintro ⟨⟨other,hother,hkey⟩,hsome⟩
        exact hno ⟨⟨other,List.mem_cons_of_mem _ hother,hkey⟩,hsome⟩
      have hnopart : ¬((∃ key ∈ part.2, row = rowKey part.1 key) ∧ (rows row).isSome = true) := by
        rintro ⟨hkey,hsome⟩
        exact hno ⟨⟨part,List.mem_cons_self,hkey⟩,hsome⟩
      rw [(hbefore row).2 hnorest,loadPart_get,if_neg hnopart]

/-- A program reads and writes only allowed rows, and sets only values that can
be written; its result has a property. -/
inductive Touches (allowed : JsString → Prop) {R : Type} (result : R → Prop) : RowProgram R → Prop where
  | done (value : R) (h : result value) : Touches allowed result (.done value)
  | throw (error : StoreError) : Touches allowed result (.throw error)
  | get (store : AtomicNamespace) (key : JsString) (next : Option Bytes → RowProgram R)
    (h : allowed (rowKey store key)) (hnext : ∀ value, Touches allowed result (next value)) :
    Touches allowed result (.get store key next)
  | set (store : AtomicNamespace) (key : JsString) (value : Bytes) (next : RowProgram R)
    (h : allowed (rowKey store key)) (hvalue : Settable codecs digest carry store key value)
    (hnext : Touches allowed result next) : Touches allowed result (.set store key value next)
  | delete (store : AtomicNamespace) (key : JsString) (next : RowProgram R)
    (h : allowed (rowKey store key)) (hnext : Touches allowed result next) :
    Touches allowed result (.delete store key next)

/-- The loaded rows stand for all rows while a change runs. -/
structure Tracks (allowed : JsString → Prop) (before tracked : TrackedRows)
    (start rows : JsString → Option Bytes) : Prop where
  /-- Allowed rows are tracked. -/
  inside : ∀ row, allowed row → (tracked.get row).map Prod.fst = rows row
  /-- Other rows are neither tracked nor changed. -/
  outside : ∀ row, ¬allowed row → tracked.get row = none ∧ rows row = start row
  /-- A row that was not replaced is as loaded. -/
  loaded : ∀ row value, tracked.get row = some (value,false) → before.get row = some (value,false)
  /-- A row that was replaced can be written. -/
  settable : ∀ row value, tracked.get row = some (value,true) →
    ∃ (store : AtomicNamespace) (key : JsString),
      row = rowKey store key ∧ Settable codecs digest carry store key value

variable {codecs digest carry} in
theorem Tracks.set {allowed : JsString → Prop} {before tracked : TrackedRows}
    {start : JsString → Option Bytes} {rows : AtomicRows Bytes}
    (h : Tracks codecs digest carry allowed before tracked start rows.get) {store : AtomicNamespace}
    {key : JsString} {value : Bytes} (hallowed : allowed (rowKey store key))
    (hvalue : Settable codecs digest carry store key value) :
    Tracks codecs digest carry allowed before (tracked.set (rowKey store key) (value,true)) start
      (rows.set (rowKey store key) value).get where
  inside row hrow := by
    rw [InsertionMap.get_set,InsertionMap.get_set]
    split
    · rfl
    · exact h.inside row hrow
  outside row hrow := by
    have hne : rowKey store key ≠ row := fun heq => hrow (heq ▸ hallowed)
    rw [InsertionMap.get_set_ne _ _ hne,InsertionMap.get_set_ne _ _ hne]
    exact h.outside row hrow
  loaded row other hrow := by
    rw [InsertionMap.get_set] at hrow
    split at hrow
    · cases hrow
    · exact h.loaded row other hrow
  settable row other hrow := by
    rw [InsertionMap.get_set] at hrow
    split at hrow
    · rename_i heq
      cases hrow
      exact ⟨store,key,heq.symm,hvalue⟩
    · exact h.settable row other hrow

variable {codecs digest carry} in
theorem Tracks.delete {allowed : JsString → Prop} {before tracked : TrackedRows}
    {start : JsString → Option Bytes} {rows : AtomicRows Bytes}
    (h : Tracks codecs digest carry allowed before tracked start rows.get) {row : JsString}
    (hallowed : allowed row) : Tracks codecs digest carry allowed before (tracked.delete row) start
      (rows.delete row).get where
  inside other hother := by
    rw [InsertionMap.get_delete,InsertionMap.get_delete]
    split
    · rfl
    · exact h.inside other hother
  outside other hother := by
    have hne : row ≠ other := fun heq => hother (heq ▸ hallowed)
    rw [InsertionMap.get_delete_ne _ hne,InsertionMap.get_delete_ne _ hne]
    exact h.outside other hother
  loaded other value hother := by
    rw [InsertionMap.get_delete] at hother
    split at hother
    · cases hother
    · exact h.loaded other value hother
  settable other value hother := by
    rw [InsertionMap.get_delete] at hother
    split at hother
    · cases hother
    · exact h.settable other value hother

/-- A program that touches only allowed rows runs over the loaded rows as over all. -/
theorem Touches.run {allowed : JsString → Prop} {R : Type} {result : R → Prop} {program : RowProgram R}
    (hprogram : Touches codecs digest carry allowed result program) {before tracked : TrackedRows}
    {start : JsString → Option Bytes} {rows : AtomicRows Bytes}
    (h : Tracks codecs digest carry allowed before tracked start rows.get) :
    (∃ error, trackedView.run tracked program = .error error ∧ rowsView.run rows program = .error error) ∨
    ∃ value last lastRows, trackedView.run tracked program = .ok (value,last) ∧
      rowsView.run rows program = .ok (value,lastRows) ∧
      Tracks codecs digest carry allowed before last start lastRows.get := by
  induction hprogram generalizing tracked rows with
  | done value _ => exact .inr ⟨value,tracked,rows,rfl,rfl,h⟩
  | throw error => exact .inl ⟨error,rfl,rfl⟩
  | get store key next hallowed _ ih =>
    have htracked : trackedView.get tracked (rowKey store key) = .ok (rows.get (rowKey store key)) :=
      congrArg Except.ok (h.inside _ hallowed)
    rw [RowView.run,htracked,RowView.run]
    exact ih _ h
  | set store key value next hallowed hvalue _ ih =>
    rw [RowView.run,RowView.run]
    exact ih (h.set hallowed hvalue)
  | delete store key next hallowed _ ih =>
    rw [RowView.run,RowView.run]
    exact ih (h.delete hallowed)

/-- A canonical key leads to its row. -/
theorem atRow_rowKey (store : AtomicNamespace) (key : JsString)
    (f : AtomicNamespace → JsString → Except StoreError KeyStore) : atRow (rowKey store key) f = f store key := by
  have hin : (store : JsString) ∈ nativeAtomicNamespaces := store.2
  unfold atRow
  rw [rowNames_rowKey]
  dsimp only
  rw [dif_pos hin]

variable {codecs} in
/-- Removing the loaded rows that the change removed. -/
theorem removeRows_reads (hpass : Passthrough codecs) {s : KeyStore} {rows : JsString → Option Bytes}
    (h : Reads codecs digest s rows) (tracked : TrackedRows) {before : List JsString}
    (hkeys : ∀ row ∈ before, ∃ (store : AtomicNamespace) (key : JsString), row = rowKey store key) :
    ∃ last, removeRows codecs carry tracked before s = .ok last ∧ Reads codecs digest last fun row =>
        if row ∈ before ∧ tracked.get row = none then none else rows row := by
  unfold removeRows
  induction before generalizing s rows with
  | nil => exact ⟨s,rfl,by simpa using h⟩
  | cons row rest ih =>
    have hrest : ∀ other ∈ rest, ∃ (store : AtomicNamespace) (key : JsString),
        other = rowKey store key :=
      fun other hother => hkeys other (List.mem_cons_of_mem _ hother)
    rw [List.foldlM_cons]
    cases hrow : tracked.get row with
    | none =>
      obtain ⟨store,key,rfl⟩ := hkeys row List.mem_cons_self
      obtain ⟨mid,hmid,hputs⟩ := adapterDelete_puts digest carry hpass s
      obtain ⟨last,hlast,hreads⟩ := ih (hputs.reads codecs digest h) hrest
      refine ⟨last,?_,fun other id => ?_⟩
      · rw [Option.isNone_none,if_pos rfl,atRow_rowKey,hmid]
        exact hlast
      · have hone := hreads other id
        dsimp only at hone ⊢
        by_cases heq : rowKey other id = rowKey store key
        · rw [heq] at hone ⊢
          rw [Function.update_self,ite_self] at hone
          rw [if_pos ⟨List.mem_cons_self,hrow⟩]
          exact hone
        · rw [Function.update_of_ne heq] at hone
          simpa [heq] using hone
    | some value =>
      obtain ⟨last,hlast,hreads⟩ := ih h hrest
      refine ⟨last,?_,fun other id => ?_⟩
      · rw [Option.isNone_some,if_neg Bool.false_ne_true]
        exact hlast
      · have hone := hreads other id
        dsimp only at hone ⊢
        by_cases heq : rowKey other id = row
        · rw [heq] at hone ⊢
          rw [if_neg fun hno => by rw [hrow] at hno; cases hno.2] at hone ⊢
          exact hone
        · simpa [heq] using hone

variable {codecs} in
/-- Writing the rows that the change set. -/
theorem writeEntries_reads (hpass : Passthrough codecs) (hcarry : CarriesBytes carry) {s : KeyStore}
    {rows : JsString → Option Bytes} (h : Reads codecs digest s rows)
    {entries : List (JsString × Bytes × Bool)} (hnodup : (entries.map Prod.fst).Nodup)
    (hsettable : ∀ entry ∈ entries, entry.2.2 = true → ∃ (store : AtomicNamespace) (key : JsString),
      entry.1 = rowKey store key ∧ Settable codecs digest carry store key entry.2.1) :
    ∃ last, entries.foldlM (fun s row =>
        if row.2.2 then atRow row.1 fun store id => adapterSet codecs digest carry store id row.2.1 s
        else .ok s) s = .ok last ∧
      Reads codecs digest last fun row =>
        match InsertionMap.find entries row with
        | some (value,true) => some value
        | _ => rows row := by
  induction entries generalizing s rows with
  | nil => exact ⟨s,rfl,h⟩
  | cons entry rest ih =>
    obtain ⟨row,value,fresh⟩ := entry
    have hparts := List.nodup_cons.mp hnodup
    have hrest : ∀ entry ∈ rest, entry.2.2 = true → ∃ (store : AtomicNamespace) (key : JsString),
        entry.1 = rowKey store key ∧ Settable codecs digest carry store key entry.2.1 :=
      fun other hother => hsettable other (List.mem_cons_of_mem _ hother)
    have habsent : InsertionMap.find rest row = none := InsertionMap.find_eq_none_iff.mpr hparts.1
    rw [List.foldlM_cons]
    cases fresh with
    | true =>
      obtain ⟨store,key,hrow,hvalue⟩ := hsettable _ List.mem_cons_self rfl
      dsimp only at hrow hvalue
      subst hrow
      obtain ⟨mid,hmid,hputs⟩ := adapterSet_puts digest carry hpass hcarry s hvalue
      obtain ⟨last,hlast,hreads⟩ := ih (hputs.reads codecs digest h) hparts.2 hrest
      refine ⟨last,?_,fun other id => ?_⟩
      · dsimp only
        rw [if_pos rfl,atRow_rowKey,hmid]
        exact hlast
      · have hone := hreads other id
        dsimp only at hone ⊢
        by_cases heq : rowKey store key = rowKey other id
        · rw [←heq,habsent,Function.update_self] at hone
          rw [←heq,InsertionMap.find,if_pos rfl]
          exact hone
        · rw [Function.update_of_ne fun he => heq he.symm] at hone
          rw [InsertionMap.find,if_neg heq]
          exact hone
    | false =>
      obtain ⟨last,hlast,hreads⟩ := ih h hparts.2 hrest
      refine ⟨last,hlast,fun other id => ?_⟩
      have hone := hreads other id
      dsimp only at hone ⊢
      by_cases heq : row = rowKey other id
      · rw [←heq,habsent] at hone
        rw [←heq,InsertionMap.find,if_pos rfl]
        exact hone
      · rw [InsertionMap.find,if_neg heq]
        exact hone

/-- A change that touches only loaded rows ends over the adapter as over all rows. -/
theorem atomic_reads {codecs : Codecs} (hpass : Passthrough codecs) (hcarry : CarriesBytes carry)
    {s : KeyStore} {rows : AtomicRows Bytes} (h : Reads codecs digest s rows.get)
    {stores : List (AtomicNamespace × List JsString)} (hnodup : ∀ part ∈ stores, part.2.Nodup)
    {program : RowProgram Unit} {result : Unit → Prop}
    (hprogram : Touches codecs digest carry (Loaded stores) result program) :
    (∃ error, rowsView.run rows program = .error error ∧
      atomic codecs digest carry stores s program = (.error error,s)) ∨
    ∃ last lastRows, rowsView.run rows program = .ok ((),lastRows) ∧
      atomic codecs digest carry stores s program = (.ok (),last) ∧ Reads codecs digest last lastRows.get := by
  obtain ⟨before,hload,hbefore⟩ := loadRows_reads carry hpass h hnodup InsertionMap.empty
  have hinside : ∀ row, Loaded stores row →
      before.get row = (rows.get row).map fun value => (value,false) := by
    intro row hloaded
    cases hrow : rows.get row with
    | none => exact (hbefore row).2 fun hboth => by rw [hrow] at hboth; cases hboth.2
    | some value => rw [(hbefore row).1 hloaded (by rw [hrow]; rfl),hrow]
  have houtside : ∀ row, ¬Loaded stores row → before.get row = none :=
    fun row hno => (hbefore row).2 fun hboth => hno hboth.1
  have hstart : Tracks codecs digest carry (Loaded stores) before before rows.get rows.get := by
    refine ⟨fun row hrow => ?_,fun row hrow => ⟨houtside row hrow,rfl⟩,fun row value hrow => hrow,
      fun row value hrow => ?_⟩
    · rw [hinside row hrow,Option.map_map]
      exact congrFun Option.map_id (rows.get row)
    · by_cases hloaded : Loaded stores row
      · rw [hinside row hloaded] at hrow
        obtain ⟨found,_,hfound⟩ := Option.map_eq_some_iff.mp hrow
        cases hfound
      · rw [houtside row hloaded] at hrow
        cases hrow
  unfold atomic
  rw [hload]
  rcases hprogram.run codecs digest carry hstart with
    ⟨error,htracked,hrows⟩ | ⟨value,tracked,lastRows,htracked,hrows,htracks⟩
  · refine .inl ⟨error,hrows,?_⟩
    dsimp only [bind,Except.bind]
    rw [htracked]
  · have hkeys : ∀ row ∈ before.keys, ∃ (store : AtomicNamespace) (key : JsString),
        row = rowKey store key := by
      intro row hrow
      by_cases hloaded : Loaded stores row
      · obtain ⟨part,_,key,_,heq⟩ := hloaded
        exact ⟨part.1,key,heq⟩
      · exact absurd hrow (InsertionMap.get_eq_none_iff.mp (houtside row hloaded))
    obtain ⟨mid,hremove,hmid⟩ := removeRows_reads digest carry hpass h tracked hkeys
    have hsettable : ∀ entry ∈ tracked.entries, entry.2.2 = true →
        ∃ (store : AtomicNamespace) (key : JsString),
          entry.1 = rowKey store key ∧ Settable codecs digest carry store key entry.2.1 := by
      intro entry hentry hfresh
      have hfind : tracked.get entry.1 = some (entry.2.1,true) := by
        rw [←hfresh]
        exact (InsertionMap.find_eq_some_iff tracked.nodup).mpr hentry
      exact htracks.settable _ _ hfind
    obtain ⟨last,hwrite,hlast⟩ := writeEntries_reads digest carry hpass hcarry hmid tracked.nodup hsettable
    refine .inr ⟨last,lastRows,hrows,?_,?_⟩
    · dsimp only [bind,Except.bind]
      rw [htracked]
      dsimp only
      rw [hremove]
      dsimp only
      unfold writeRows
      rw [hwrite]
    · have hsame : lastRows.get = fun row => match InsertionMap.find tracked.entries row with
          | some (value,true) => some value
          | _ => if row ∈ before.keys ∧ tracked.get row = none then none else rows.get row := by
        funext row
        by_cases hloaded : Loaded stores row
        · have htracked := htracks.inside row hloaded
          have hfound := hinside row hloaded
          rw [←htracked]
          change (tracked.get row).map Prod.fst = match tracked.get row with
            | some (value,true) => some value
            | _ => if row ∈ before.keys ∧ tracked.get row = none then none else rows.get row
          cases hrow : tracked.get row with
          | none =>
            by_cases hin : row ∈ before.keys
            · exact (if_pos ⟨hin,rfl⟩).symm
            · rw [InsertionMap.get_eq_none_iff.mpr hin] at hfound
              have hnone : rows.get row = none := Option.map_eq_none_iff.mp hfound.symm
              dsimp only
              rw [hnone,ite_self]
              rfl
          | some entry =>
            obtain ⟨value,fresh⟩ := entry
            cases fresh with
            | true => rfl
            | false =>
              have hkept := htracks.loaded row value hrow
              rw [hfound] at hkept
              obtain ⟨found,hsome,hpair⟩ := Option.map_eq_some_iff.mp hkept
              cases hpair
              dsimp only
              have hpresent : ¬(row ∈ before.keys ∧ some (value,false) = (none : Option (Bytes × Bool))) :=
                fun hno => Option.some_ne_none _ hno.2
              rw [if_neg hpresent,hsome]
              rfl
        · have htracked := htracks.outside row hloaded
          have hin : row ∉ before.keys := InsertionMap.get_eq_none_iff.mp (houtside row hloaded)
          have hfind : InsertionMap.find tracked.entries row = none := htracked.1
          rw [htracked.2,hfind]
          exact (if_neg fun hboth => hin hboth.1).symm
      rw [hsame]
      exact hlast

end Adapter

end Baileyrs.LegacyProjection
