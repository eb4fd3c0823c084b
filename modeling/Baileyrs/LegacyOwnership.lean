import Baileyrs.LegacyProjection

/-!
# Who owns a projected row

What one operation does to the rows is stated once for each operation. A key
is settled when reading it writes nothing: after a write, after a deletion and
after a read. It stays settled until its own rows change, so a read that finds
another owner's value returns the conversion of that value from then on.
-/

namespace Baileyrs.LegacyProjection

open JsString AtomicStore LegacyValues LegacyMirror

/-- A list has no key twice exactly when none repeats. -/
theorem firstDuplicate_eq_none {seen keys : List JsString} :
    firstDuplicate seen keys = none ↔ keys.Nodup ∧ ∀ key ∈ keys, key ∉ seen := by
  induction keys generalizing seen with
  | nil => simp [firstDuplicate]
  | cons key rest ih =>
    by_cases hseen : key ∈ seen
    · simp [firstDuplicate,hseen]
    · simp only [firstDuplicate,List.contains_iff_mem,hseen,if_false,ih,List.nodup_cons,
        List.mem_cons,forall_eq_or_imp,not_or]
      constructor
      · rintro ⟨hn,hall⟩
        exact ⟨⟨fun hm => (hall key hm).1 rfl,hn⟩,fun h => h,fun other ho => (hall other ho).2⟩
      · rintro ⟨⟨hk,hn⟩,_,hall⟩
        exact ⟨hn,fun other ho => ⟨fun he => hk (he ▸ ho),hall other ho⟩⟩

theorem uniqueKeys_ok {keys : List JsString} {label : String} : uniqueKeys keys label = .ok () ↔ keys.Nodup := by
  have hnone : firstDuplicate [] keys = none ↔ keys.Nodup := by
    rw [firstDuplicate_eq_none]
    simp
  unfold uniqueKeys
  cases hfirst : firstDuplicate [] keys with
  | none => simp [←hnone,hfirst]
  | some key => simp [←hnone,hfirst]

/-- The results of a traversal that succeeds, one for each item. -/
theorem mapM_ok {α β ε : Type} {f : α → Except ε β} {items : List α} {results : List β}
    (h : items.mapM f = .ok results) : List.Forall₂ (fun item result => f item = .ok result) items results := by
  induction items generalizing results with
  | nil =>
    cases h
    exact .nil
  | cons item rest ih =>
    rw [List.mapM_cons] at h
    cases hfirst : f item with
    | error error =>
      rw [hfirst] at h
      cases h
    | ok first =>
      cases hrest : rest.mapM f with
      | error error =>
        rw [hfirst,hrest] at h
        cases h
      | ok others =>
        rw [hfirst,hrest] at h
        cases h
        exact .cons hfirst (ih hrest)

/-- The items are read off the results when each result names its item. -/
theorem mapM_map {α β ε : Type} {f : α → Except ε β} {name : β → α} {items : List α}
    {results : List β} (hname : ∀ item result, f item = .ok result → name result = item)
    (h : items.mapM f = .ok results) : results.map name = items := by
  have hall := mapM_ok h
  clear h
  induction hall with
  | nil => rfl
  | cons hfirst _ ih => rw [List.map_cons,ih,hname _ _ hfirst]

/-- Every result is that of an item. -/
theorem mapM_mem {α β ε : Type} {f : α → Except ε β} {items : List α} {results : List β}
    {result : β} (h : items.mapM f = .ok results) (hresult : result ∈ results) :
    ∃ item ∈ items, f item = .ok result := by
  have hall := mapM_ok h
  clear h
  induction hall with
  | nil => cases hresult
  | cons hfirst _ ih =>
    rcases List.mem_cons.mp hresult with rfl | hrest
    · exact ⟨_,List.mem_cons_self,hfirst⟩
    · obtain ⟨item,hitem,hf⟩ := ih hrest
      exact ⟨item,List.mem_cons_of_mem _ hitem,hf⟩

section Adapter

variable (codecs : Codecs) (digest : Digest) (carry : String → Value → Value)

/-- What a successful translation says of its pairs. -/
structure Translated (store : ProjectedStore) (requested : List JsString)
    (translated : List (JsString × JsString)) : Prop where
  /-- The pairs list the requested keys. -/
  keys : translated.map Prod.fst = requested
  /-- No key is requested twice. -/
  nodup : requested.Nodup
  /-- No two have one legacy key. -/
  distinct : (translated.map Prod.snd).Nodup
  /-- Each pair is a key with its legacy key. -/
  pair : ∀ pair ∈ translated, codecs.legacyKey store pair.1 = .ok pair.2

theorem translateAll_ok {store : ProjectedStore} {requested : List JsString} {method : String}
    {translated : List (JsString × JsString)} (h : translateAll codecs store requested method = .ok translated) :
    Translated codecs store requested translated := by
  unfold translateAll at h
  obtain ⟨_,hunique,h⟩ := bind_ok h
  obtain ⟨found,htranslate,h⟩ := bind_ok h
  obtain ⟨_,hdistinct,h⟩ := bind_ok h
  cases h
  have hone : ∀ key pair, (do
      let translated ← codecs.legacyKey store key
      return (key,translated)) = Except.ok pair →
      pair.1 = key ∧ codecs.legacyKey store pair.1 = .ok pair.2 := by
    intro key pair hpair
    obtain ⟨found,hfound,hpair⟩ := bind_ok hpair
    cases hpair
    exact ⟨rfl,hfound⟩
  refine ⟨mapM_map (fun key pair hpair => (hone key pair hpair).1) htranslate,
    uniqueKeys_ok.mp hunique,uniqueKeys_ok.mp hdistinct,fun pair hpair => ?_⟩
  obtain ⟨key,_,hkey⟩ := mapM_mem htranslate hpair
  exact (hone key pair hkey).2

/-- What a successful projection says of its entries. -/
structure Projected (store : ProjectedStore) (entries : List (JsString × Bytes))
    (projected : List Projection) : Prop where
  /-- They are the entries of the write. -/
  listed : projected.map (fun one => (one.key,one.value)) = entries
  /-- No key is written twice. -/
  nodup : (entries.map Prod.fst).Nodup
  /-- No two have one legacy key. -/
  distinct : (projected.map Projection.translated).Nodup
  /-- Each has its legacy key. -/
  translated : ∀ one ∈ projected, codecs.legacyKey store one.key = .ok one.translated
  /-- Each has its projection. -/
  legacyValue : ∀ one ∈ projected, codecs.toLegacy store one.key one.value = .ok one.legacyValue

theorem project_ok {store : ProjectedStore} {entry : JsString × Bytes} {one : Projection}
    (h : project codecs store entry = .ok one) :
    (one.key,one.value) = entry ∧ codecs.legacyKey store one.key = .ok one.translated ∧
      codecs.toLegacy store one.key one.value = .ok one.legacyValue := by
  unfold project at h
  obtain ⟨translated,htranslated,h⟩ := bind_ok h
  obtain ⟨legacyValue,hlegacy,h⟩ := bind_ok h
  cases h
  exact ⟨rfl,htranslated,hlegacy⟩

theorem projectAll_ok {store : ProjectedStore} {entries : List (JsString × Bytes)}
    {projected : List Projection} (h : projectAll codecs store entries = .ok projected) :
    Projected codecs store entries projected := by
  unfold projectAll at h
  obtain ⟨_,hunique,h⟩ := bind_ok h
  obtain ⟨found,hproject,h⟩ := bind_ok h
  obtain ⟨_,hdistinct,h⟩ := bind_ok h
  cases h
  refine ⟨mapM_map (fun entry one hone => (project_ok codecs hone).1) hproject,
    uniqueKeys_ok.mp hunique,uniqueKeys_ok.mp hdistinct,fun one hone => ?_,fun one hone => ?_⟩
  · obtain ⟨entry,_,hentry⟩ := mapM_mem hproject hone
    exact (project_ok codecs hentry).2.1
  · obtain ⟨entry,_,hentry⟩ := mapM_mem hproject hone
    exact (project_ok codecs hentry).2.2

/-- Rows a bucket does not name stay as they are. -/
theorem putBucket_other {rows : LegacyRows} {type other : String} {bucket : Bucket} {key : JsString}
    (h : other = type → key ∉ bucket.map Prod.fst) : putBucket carry rows type bucket other key = rows other key := by
  unfold putBucket
  induction bucket generalizing rows with
  | nil => rfl
  | cons entry rest ih =>
    have hrest : other = type → key ∉ rest.map Prod.fst :=
      fun ht hm => h ht (List.mem_cons_of_mem _ hm)
    have hfirst : ¬(other = type ∧ key = entry.1) := by
      rintro ⟨ht,rfl⟩
      exact h ht List.mem_cons_self
    rw [List.foldl_cons,ih hrest,putRow,if_neg hfirst]

/-- A bucket without duplicates leaves the rows it names. -/
theorem putBucket_mem {rows : LegacyRows} {type : String} {bucket : Bucket} {entry : JsString × Value}
    (hnodup : (bucket.map Prod.fst).Nodup) (h : entry ∈ bucket) :
    putBucket carry rows type bucket type entry.1 = rowOf carry type entry.2 := by
  induction bucket generalizing rows with
  | nil => cases h
  | cons first rest ih =>
    have hparts := List.nodup_cons.mp hnodup
    rcases List.mem_cons.mp h with rfl | hrest
    · have hkept : putBucket carry (putRow carry rows type entry.1 entry.2) type rest type entry.1 = _ :=
        putBucket_other carry fun _ => hparts.1
      rw [putBucket,List.foldl_cons]
      exact hkept.trans (if_pos ⟨rfl,rfl⟩)
    · rw [putBucket,List.foldl_cons]
      exact ih hparts.2 hrest

/-- Rows after updates, whether or not there is anything to write. -/
theorem persist_rows (updates : List (String × Bucket)) (s : KeyStore) : (persist carry updates s).rows =
      updates.foldl (fun rows bucket => putBucket carry rows bucket.1 bucket.2) s.rows := by
  unfold persist
  split
  · rename_i hempty
    have hkept : ∀ rows : LegacyRows,
        updates.foldl (fun rows bucket => putBucket carry rows bucket.1 bucket.2) rows = rows := by
      intro rows
      induction updates with
      | nil => rfl
      | cons bucket rest ih =>
        rw [List.all_cons,Bool.and_eq_true,List.isEmpty_iff] at hempty
        have hfirst : putBucket carry rows bucket.1 bucket.2 = rows := by
          rw [hempty.1]
          rfl
        rw [List.foldl_cons,hfirst,ih hempty.2]
    exact (hkept s.rows).symm
  · rfl

/-- Rows after a write. -/
theorem persist_writeUpdates (store : ProjectedStore) (projected : List Projection) (s : KeyStore) :
    (persist carry (writeUpdates digest store s.rows projected) s).rows =
      putBucket carry (putBucket carry s.rows store.nativeType (nativeBucket digest store s.rows projected))
        store.legacyType (legacyBucket projected) := by
  rw [persist_rows,writeUpdates,List.foldl_cons]
  split
  · rename_i hempty
    rw [List.isEmpty_iff] at hempty
    rw [hempty]
    rfl
  · rfl

/-- A mirror row is not a legacy row. -/
theorem native_ne {store other : ProjectedStore} {type : String} (h : type = store.nativeType) :
    type ≠ other.legacyType := fun he => ProjectedStore.nativeType_ne_legacyType store other (h.symm.trans he)

/-- Legacy keys of a bucket are those of its projections. -/
theorem map_fst_legacyBucket (projected : List Projection) : (legacyBucket projected).map Prod.fst =
      (projected.filter fun one => one.legacyValue.isSome).map Projection.translated := by
  induction projected with
  | nil => rfl
  | cons one rest ih =>
    unfold legacyBucket at ih ⊢
    rw [List.filterMap_cons,List.filter_cons]
    cases hvalue : one.legacyValue with
    | none => exact ih
    | some value => exact congrArg (List.cons one.translated) ih

theorem map_fst_nativeBucket (store : ProjectedStore) (rows : LegacyRows) (projected : List Projection) :
    (nativeBucket digest store rows projected).map Prod.fst = projected.map Projection.key := by
  rw [nativeBucket,List.map_map]
  rfl

variable {codecs} in
theorem Projected.keys {store : ProjectedStore} {entries : List (JsString × Bytes)}
    {projected : List Projection} (h : Projected codecs store entries projected) :
    projected.map Projection.key = entries.map Prod.fst := by
  rw [←h.listed,List.map_map]
  rfl

/-- What a write leaves. -/
structure Written (store : ProjectedStore) (projected : List Projection) (rows last : LegacyRows) :
    Prop where
  /-- Every mirror row holds its envelope. -/
  mirror : ∀ one ∈ projected,
    last store.nativeType one.key = rowOf carry store.nativeType (mirrorOf digest store rows one)
  /-- Every legacy row holds its projection. -/
  legacy : ∀ one ∈ projected, ∀ value, one.legacyValue = some value →
    last store.legacyType one.translated = rowOf carry store.legacyType value
  /-- A row without a projection stays as it is. -/
  kept : ∀ one ∈ projected, one.legacyValue = none →
    last store.legacyType one.translated = rows store.legacyType one.translated
  /-- All other rows stay as they are. -/
  frame : ∀ type key, (type = store.nativeType → key ∉ projected.map Projection.key) →
    (type = store.legacyType → key ∉ projected.map Projection.translated) →
    last type key = rows type key

variable {codecs} in
theorem Projected.written {store : ProjectedStore} {entries : List (JsString × Bytes)}
    {projected : List Projection} (h : Projected codecs store entries projected) (s : KeyStore) :
    Written digest carry store projected s.rows
      (persist carry (writeUpdates digest store s.rows projected) s).rows := by
  have hkeys : (projected.map Projection.key).Nodup := h.keys ▸ h.nodup
  rw [persist_writeUpdates]
  refine ⟨fun one hone => ?_,fun one hone value hvalue => ?_,fun one hone hvalue => ?_,
    fun type key hnative hlegacy => ?_⟩
  · have hmem : (one.key,mirrorOf digest store s.rows one) ∈ nativeBucket digest store s.rows projected :=
      List.mem_map_of_mem hone
    have hnodup : ((nativeBucket digest store s.rows projected).map Prod.fst).Nodup := by
      rw [map_fst_nativeBucket]
      exact hkeys
    rw [putBucket_other carry fun ht => absurd ht (native_ne rfl)]
    exact putBucket_mem carry hnodup hmem
  · have hmem : (one.translated,value) ∈ legacyBucket projected := by
      refine List.mem_filterMap.mpr ⟨one,hone,?_⟩
      rw [hvalue]
      rfl
    have hnodup : ((legacyBucket projected).map Prod.fst).Nodup := by
      rw [map_fst_legacyBucket]
      exact h.distinct.sublist (List.filter_sublist.map _)
    exact putBucket_mem carry hnodup hmem
  · have habsent : one.translated ∉ (legacyBucket projected).map Prod.fst := by
      rw [map_fst_legacyBucket]
      intro hmem
      obtain ⟨other,hother,heq⟩ := List.mem_map.mp hmem
      obtain ⟨hin,hsome⟩ := List.mem_filter.mp hother
      have hsame := List.inj_on_of_nodup_map h.distinct hin hone heq
      rw [hsame,hvalue] at hsome
      cases hsome
    rw [putBucket_other carry fun _ => habsent,
      putBucket_other carry fun ht => absurd ht.symm (native_ne rfl)]
  · have hbucket : type = store.legacyType → key ∉ (legacyBucket projected).map Prod.fst := by
      intro ht hmem
      rw [map_fst_legacyBucket] at hmem
      exact hlegacy ht ((List.filter_sublist.map _).subset hmem)
    have hmirror : type = store.nativeType →
        key ∉ (nativeBucket digest store s.rows projected).map Prod.fst := by
      rw [map_fst_nativeBucket]
      exact hnative
    rw [putBucket_other carry hbucket,putBucket_other carry hmirror]

/-- What a deletion leaves. -/
structure Deleted (store : ProjectedStore) (translated : List (JsString × JsString))
    (rows last : LegacyRows) : Prop where
  /-- No mirror row of a key is left. -/
  mirror : ∀ pair ∈ translated, last store.nativeType pair.1 = none
  /-- No legacy row of a key is left. -/
  legacy : ∀ pair ∈ translated, last store.legacyType pair.2 = none
  /-- All other rows stay as they are. -/
  frame : ∀ type key, (type = store.nativeType → key ∉ translated.map Prod.fst) →
    (type = store.legacyType → key ∉ translated.map Prod.snd) → last type key = rows type key

variable {codecs} in
theorem Translated.deleted {store : ProjectedStore} {requested : List JsString}
    {translated : List (JsString × JsString)} (h : Translated codecs store requested translated)
    (s : KeyStore) : Deleted store translated s.rows (persist carry (deleteUpdates store translated) s).rows := by
  have hfirst : (translated.map fun pair => (pair.1,Value.null)).map Prod.fst = requested := by
    rw [←h.keys,List.map_map]
    rfl
  have hsecond : (translated.map fun pair => (pair.2,Value.null)).map Prod.fst = translated.map Prod.snd := by
    rw [List.map_map]
    rfl
  rw [persist_rows,deleteUpdates,List.foldl_cons,List.foldl_cons,List.foldl_nil]
  refine ⟨fun pair hpair => ?_,fun pair hpair => ?_,fun type key hnative hlegacy => ?_⟩
  · have hmem : (pair.1,Value.null) ∈ translated.map fun pair => (pair.1,Value.null) :=
      List.mem_map_of_mem hpair
    have hnodup := h.nodup
    rw [←hfirst] at hnodup
    rw [putBucket_other carry fun ht => absurd ht (native_ne rfl)]
    exact putBucket_mem carry hnodup hmem
  · have hmem : (pair.2,Value.null) ∈ translated.map fun pair => (pair.2,Value.null) :=
      List.mem_map_of_mem hpair
    have hnodup := h.distinct
    rw [←hsecond] at hnodup
    exact putBucket_mem carry hnodup hmem
  · have hkept : type = store.nativeType →
        key ∉ (translated.map fun pair => (pair.1,Value.null)).map Prod.fst := by
      rw [hfirst,←h.keys]
      exact hnative
    have hother : type = store.legacyType →
        key ∉ (translated.map fun pair => (pair.2,Value.null)).map Prod.fst := by
      rw [hsecond]
      exact hlegacy
    rw [putBucket_other carry hother,putBucket_other carry hkept]

/-- The fingerprint of the legacy row is not that of the mirror. -/
def Stale (store : ProjectedStore) (rows : LegacyRows) (key translated : JsString) : Prop :=
  ∀ envelope, decodeNativeEnvelope (rows.read store.nativeType key) = .ok (some envelope) →
    envelopeMatchesLegacy digest envelope (rows.read store.legacyType translated) = false

/-- The mirror holds the bytes, under the fingerprint of the legacy row. -/
def Mirrors (store : ProjectedStore) (rows : LegacyRows) (key translated : JsString) (bytes : Bytes) :
    Prop :=
  ∃ envelope, decodeNativeEnvelope (rows.read store.nativeType key) = .ok (some envelope) ∧
    envelopeMatchesLegacy digest envelope (rows.read store.legacyType translated) = true ∧
    envelope.payload = bytes

/-- Reading a key gives a value and writes nothing. -/
def Settled (store : ProjectedStore) (rows : LegacyRows) (key translated : JsString)
    (value : Option Bytes) : Prop :=
  importKey codecs digest store rows key translated = .ok ⟨key,value,none⟩

/-- Reading one key looks at two rows. -/
theorem importKey_congr {store : ProjectedStore} {rows last : LegacyRows} {key translated : JsString}
    (hnative : last store.nativeType key = rows store.nativeType key)
    (hlegacy : last store.legacyType translated = rows store.legacyType translated) :
    importKey codecs digest store last key translated = importKey codecs digest store rows key translated := by
  unfold importKey importLegacy LegacyRows.read
  rw [hnative,hlegacy]

/-- A matching mirror is returned. -/
theorem Mirrors.settled {store : ProjectedStore} {rows : LegacyRows} {key translated : JsString}
    {bytes : Bytes} (h : Mirrors digest store rows key translated bytes) :
    Settled codecs digest store rows key translated (some bytes) := by
  obtain ⟨envelope,hdecode,hmatch,hpayload⟩ := h
  have hmirrored : mirroredBytes digest (some envelope) (rows.read store.legacyType translated) =
      some bytes := by
    rw [mirroredBytes,if_pos hmatch,hpayload]
  unfold Settled importKey
  rw [hdecode]
  simp only [bind,Except.bind]
  rw [hmirrored]
  rfl

/-- A stale mirror is mended with the bytes of the legacy row. -/
theorem importKey_stale {store : ProjectedStore} {rows : LegacyRows} {key translated : JsString}
    (h : Stale digest store rows key translated) {envelope : Option NativeEnvelope}
    (hdecode : decodeNativeEnvelope (rows.read store.nativeType key) = .ok envelope) :
    importKey codecs digest store rows key translated = (importLegacy codecs store rows key translated).map fun value =>
        ⟨key,value,mendMirror digest (rows.read store.nativeType key)
          (rows.read store.legacyType translated) value⟩ := by
  have hmirrored : mirroredBytes digest envelope (rows.read store.legacyType translated) = none := by
    cases envelope with
    | none => rfl
    | some found => rw [mirroredBytes,h found hdecode,if_neg Bool.false_ne_true]
  unfold importKey
  rw [hdecode]
  simp only [bind,Except.bind]
  rw [hmirrored]
  cases importLegacy codecs store rows key translated <;> rfl

/-- Reading a key returns its mirror unwritten, or the bytes of the legacy row
with a mended mirror. -/
theorem importKey_ok {store : ProjectedStore} {rows : LegacyRows} {key translated : JsString}
    {one : Imported} (h : importKey codecs digest store rows key translated = .ok one) :
    (∃ payload, one = ⟨key,some payload,none⟩) ∨
      ∃ envelope value, decodeNativeEnvelope (rows.read store.nativeType key) = .ok envelope ∧
        mirroredBytes digest envelope (rows.read store.legacyType translated) = none ∧
        importLegacy codecs store rows key translated = .ok value ∧
        one = ⟨key,value,mendMirror digest (rows.read store.nativeType key)
          (rows.read store.legacyType translated) value⟩ := by
  unfold importKey at h
  obtain ⟨envelope,hdecode,h⟩ := bind_ok h
  cases hmirrored : mirroredBytes digest envelope (rows.read store.legacyType translated) with
  | some payload =>
    rw [hmirrored] at h
    cases h
    exact .inl ⟨payload,rfl⟩
  | none =>
    rw [hmirrored] at h
    obtain ⟨value,hvalue,h⟩ := bind_ok h
    cases h
    exact .inr ⟨envelope,value,hdecode,hmirrored,hvalue,rfl⟩

/-- The result of a read names its key. -/
theorem importKey_key {store : ProjectedStore} {rows : LegacyRows} {key translated : JsString}
    {one : Imported} (h : importKey codecs digest store rows key translated = .ok one) : one.key = key := by
  rcases importKey_ok codecs digest h with ⟨payload,rfl⟩ | ⟨envelope,value,_,_,_,rfl⟩
  · rfl
  · rfl

/-- The store gives bytes back as they were set. -/
def CarriesBytes : Prop := ∀ type data, carry type (.bytes data) = .bytes data

/-- A mirror written beside a legacy row holds its bytes. -/
theorem mirrors_of_encode {store : ProjectedStore} {rows : LegacyRows} {key translated : JsString}
    {bytes : Bytes} {legacyValue : Value}
    (hnative : rows store.nativeType key = some (.bytes (encodeNativeEnvelope digest bytes legacyValue)))
    (hlegacy : fingerprintLegacy digest (rows.read store.legacyType translated) =
      fingerprintLegacy digest legacyValue) : Mirrors digest store rows key translated bytes := by
  have hdecode := decode_encodeNativeEnvelope digest bytes legacyValue
  refine ⟨⟨bytes,some (fingerprintLegacy digest legacyValue),false⟩,?_,?_,rfl⟩
  · rw [LegacyRows.read,hnative,Option.getD_some,hdecode]
  · rw [envelopeMatchesLegacy,hlegacy]
    exact beq_self_eq_true _

/-- So does one without a projection. -/
theorem mirrors_of_encodeNativeOnly {store : ProjectedStore} {rows : LegacyRows}
    {key translated : JsString} {bytes : Bytes} {legacyValue : Value} (hnative : rows store.nativeType key =
      some (.bytes (encodeNativeOnlyEnvelope digest bytes legacyValue)))
    (hlegacy : rows.read store.legacyType translated = legacyValue) :
    Mirrors digest store rows key translated bytes := by
  have hdecode := decode_encodeNativeOnlyEnvelope digest bytes legacyValue
  refine ⟨⟨bytes,some (fingerprintLegacy digest legacyValue),true⟩,?_,?_,rfl⟩
  · rw [LegacyRows.read,hnative,Option.getD_some,hdecode]
  · rw [envelopeMatchesLegacy,hlegacy]
    exact beq_self_eq_true _

/-- Once its result is written, a read gives the same value and writes nothing. -/
theorem importKey_settles {store : ProjectedStore} {rows last : LegacyRows} {key translated : JsString}
    {one : Imported} (hcarry : CarriesBytes carry) (h : importKey codecs digest store rows key translated = .ok one)
    (hlegacy : last store.legacyType translated = rows store.legacyType translated)
    (hnative : last store.nativeType key = one.mirror.elim (rows store.nativeType key) (rowOf carry store.nativeType)) :
    Settled codecs digest store last key translated one.value := by
  have hread : last.read store.legacyType translated = rows.read store.legacyType translated := by
    rw [LegacyRows.read,LegacyRows.read,hlegacy]
  rcases importKey_ok codecs digest h with ⟨payload,rfl⟩ | ⟨envelope,value,hdecode,hmirrored,hvalue,rfl⟩
  · rw [Settled,importKey_congr codecs digest hnative hlegacy]
    exact h
  · cases value with
    | some bytes =>
      have hrow : last store.nativeType key = some (.bytes
          (encodeNativeEnvelope digest bytes (rows.read store.legacyType translated))) := by
        rw [hnative]
        exact congrArg some (hcarry _ _)
      exact (mirrors_of_encode digest hrow (by rw [hread])).settled codecs digest
    | none =>
      by_cases hnull : (rows.read store.nativeType key).isNullish = true
      · have hmend : mendMirror digest (rows.read store.nativeType key)
            (rows.read store.legacyType translated) none = none := if_pos hnull
        rw [hmend] at h hnative ⊢
        rw [Settled,importKey_congr codecs digest hnative hlegacy]
        exact h
      · have hmend : mendMirror digest (rows.read store.nativeType key)
            (rows.read store.legacyType translated) none = some .null := if_neg hnull
        have hgone : last.read store.nativeType key = .null := by
          rw [LegacyRows.read,hnative,hmend]
          rfl
        have hlast : importLegacy codecs store last key translated = .ok none := by
          rw [importLegacy,hread]
          exact hvalue
        have hdecoded : decodeNativeEnvelope (last.read store.nativeType key) = .ok none := by
          rw [hgone]
          rfl
        unfold Settled importKey
        rw [hdecoded]
        simp only [bind,Except.bind]
        rw [mirroredBytes,hlast,hgone]
        rfl

/-- What a read of several keys found and left. -/
structure ReadBy (store : ProjectedStore) (requested : List JsString) (imported : List Imported)
    (rows last : LegacyRows) : Prop where
  /-- Each key was read from the rows before. -/
  found : ∀ one ∈ imported, one.key ∈ requested ∧ ∃ translated,
    codecs.legacyKey store one.key = .ok translated ∧
      importKey codecs digest store rows one.key translated = .ok one
  /-- Every requested key was read. -/
  every : ∀ key ∈ requested, ∃ one ∈ imported, one.key = key
  /-- Mended mirrors are written. -/
  mended : ∀ one ∈ imported, ∀ value, one.mirror = some value →
    last store.nativeType one.key = rowOf carry store.nativeType value
  /-- All other rows stay as they are. -/
  frame : ∀ type key,
    (type = store.nativeType → ∀ one ∈ imported, one.key = key → one.mirror = none) →
    last type key = rows type key

/-- Mirror rows of a read have its keys. -/
theorem map_fst_mirrorUpdates (imported : List Imported) : (mirrorUpdates imported).map Prod.fst =
      (imported.filter fun one => one.mirror.isSome).map Imported.key := by
  induction imported with
  | nil => rfl
  | cons one rest ih =>
    unfold mirrorUpdates at ih ⊢
    rw [List.filterMap_cons,List.filter_cons]
    cases hvalue : one.mirror with
    | none => exact ih
    | some value => exact congrArg (List.cons one.key) ih

/-- What a read converts: every requested key once, each from its two rows. -/
structure Converted (store : ProjectedStore) (requested : List JsString) (imported : List Imported)
    (rows : LegacyRows) : Prop where
  /-- The keys are the requested ones. -/
  keys : imported.map Imported.key = requested
  /-- No key is requested twice. -/
  nodup : requested.Nodup
  /-- Each key was read from the rows. -/
  found : ∀ one ∈ imported, ∃ translated, codecs.legacyKey store one.key = .ok translated ∧
    importKey codecs digest store rows one.key translated = .ok one

theorem readProjected_ok {store : ProjectedStore} {requested : List JsString} {rows : LegacyRows}
    {imported : List Imported} (h : readProjected codecs digest store requested rows = .ok imported) :
    Converted codecs digest store requested imported rows := by
  unfold readProjected at h
  obtain ⟨translated,htranslated,himports⟩ := bind_ok h
  have ht := translateAll_ok codecs htranslated
  have hkeys : imported.map Imported.key = requested := by
    have hall := mapM_ok himports
    rw [←ht.keys]
    clear himports htranslated ht h
    induction hall with
    | nil => rfl
    | cons hfirst _ ih => rw [List.map_cons,List.map_cons,ih,importKey_key codecs digest hfirst]
  refine ⟨hkeys,ht.nodup,fun one hone => ?_⟩
  obtain ⟨pair,hpair,himport⟩ := mapM_mem himports hone
  have hkey := importKey_key codecs digest himport
  rw [hkey]
  exact ⟨pair.2,ht.pair pair hpair,himport⟩

/-- What writing the mended mirrors of a read leaves. -/
structure Mended (store : ProjectedStore) (imported : List Imported) (rows last : LegacyRows) : Prop where
  /-- Mended mirrors are written. -/
  mended : ∀ one ∈ imported, ∀ value, one.mirror = some value →
    last store.nativeType one.key = rowOf carry store.nativeType value
  /-- All other rows stay as they are. -/
  frame : ∀ type key,
    (type = store.nativeType → ∀ one ∈ imported, one.key = key → one.mirror = none) →
    last type key = rows type key

theorem persist_mirrorUpdates {store : ProjectedStore} {imported : List Imported}
    (h : (imported.map Imported.key).Nodup) (s : KeyStore) : Mended carry store imported s.rows
      (persist carry [(store.nativeType,mirrorUpdates imported)] s).rows := by
  have hnodup : ((mirrorUpdates imported).map Prod.fst).Nodup := by
    rw [map_fst_mirrorUpdates]
    exact h.sublist (List.filter_sublist.map _)
  refine ⟨fun one hone value hvalue => ?_,fun type key hframe => ?_⟩
  · have hmem : (one.key,value) ∈ mirrorUpdates imported := by
      refine List.mem_filterMap.mpr ⟨one,hone,?_⟩
      rw [hvalue]
      rfl
    rw [persist_rows]
    exact putBucket_mem carry hnodup hmem
  · have habsent : type = store.nativeType → key ∉ (mirrorUpdates imported).map Prod.fst := by
      intro ht hmem
      rw [map_fst_mirrorUpdates] at hmem
      obtain ⟨one,hone,heq⟩ := List.mem_map.mp hmem
      obtain ⟨hin,hsome⟩ := List.mem_filter.mp hone
      rw [hframe ht one hin heq] at hsome
      cases hsome
    rw [persist_rows]
    exact putBucket_other carry habsent

theorem getMany_ok {store : ProjectedStore} {requested : List JsString} {s last : KeyStore}
    {results : List (JsString × Bytes)} (h : getMany codecs digest carry store requested s = (.ok results,last)) :
    ∃ imported, results = readResults imported ∧
      ReadBy codecs digest carry store requested imported s.rows last.rows := by
  unfold getMany at h
  split at h
  · rename_i hempty
    rw [List.isEmpty_iff] at hempty
    subst hempty
    cases h
    exact ⟨[],rfl,fun one hone => (by cases hone),fun key hkey => (by cases hkey),
      fun one hone => (by cases hone),fun type key _ => rfl⟩
  · split at h
    · rename_i imported hread
      obtain ⟨rfl,rfl⟩ := Prod.mk.inj h |>.imp Except.ok.inj id
      have hconverted := readProjected_ok codecs digest hread
      have hmended := @persist_mirrorUpdates carry store imported
        (hconverted.keys ▸ hconverted.nodup) s
      have hrows : (if (mirrorUpdates imported).isEmpty then s
          else persist carry [(store.nativeType,mirrorUpdates imported)] s).rows =
            (persist carry [(store.nativeType,mirrorUpdates imported)] s).rows := by
        split
        · rename_i hempty
          rw [List.isEmpty_iff] at hempty
          rw [hempty]
          rfl
        · rfl
      rw [hrows]
      refine ⟨imported,rfl,fun one hone => ?_,fun key hkey => ?_,hmended.mended,hmended.frame⟩
      · exact ⟨hconverted.keys ▸ List.mem_map_of_mem hone,hconverted.found one hone⟩
      · rw [←hconverted.keys] at hkey
        obtain ⟨one,hone,heq⟩ := List.mem_map.mp hkey
        exact ⟨one,hone,heq⟩
    · cases h

/-- A read that throws writes nothing. -/
theorem getMany_error {store : ProjectedStore} {requested : List JsString} {s last : KeyStore}
    {error : StoreError} (h : getMany codecs digest carry store requested s = (.error error,last)) : last = s := by
  unfold getMany at h
  split at h
  · cases h
  · split at h
    · cases h
    · cases h
      rfl

/-- A write either leaves its rows or throws and leaves all as they are. -/
theorem setMany_cases (store : ProjectedStore) (entries : List (JsString × Bytes)) (s : KeyStore) :
    (∃ projected, projectAll codecs store entries = .ok projected ∧
      Projected codecs store entries projected ∧ (setMany codecs digest carry store entries s).1 = .ok () ∧
      Written digest carry store projected s.rows (setMany codecs digest carry store entries s).2.rows) ∨
    ∃ error, projectAll codecs store entries = .error error ∧
      setMany codecs digest carry store entries s = (.error error,s) := by
  unfold setMany
  cases hproject : projectAll codecs store entries with
  | error error =>
    have hsome : ¬entries.isEmpty = true := by
      intro hempty
      rw [List.isEmpty_iff] at hempty
      subst hempty
      cases hproject
    rw [if_neg hsome]
    exact .inr ⟨error,rfl,rfl⟩
  | ok projected =>
    have hprojected := projectAll_ok codecs hproject
    by_cases hempty : entries.isEmpty = true
    · rw [if_pos hempty]
      rw [List.isEmpty_iff] at hempty
      have hnil : projected = [] := by
        have hlisted := hprojected.listed
        rw [hempty] at hlisted
        exact List.map_eq_nil_iff.mp hlisted
      subst hnil
      exact .inl ⟨[],rfl,hprojected,rfl,fun one hone => (by cases hone),fun one hone => (by cases hone),
        fun one hone => (by cases hone),fun type key _ _ => rfl⟩
    · rw [if_neg hempty]
      exact .inl ⟨projected,rfl,hprojected,rfl,hprojected.written digest carry s⟩

/-- So does a deletion. -/
theorem deleteMany_cases (store : ProjectedStore) (requested : List JsString) (s : KeyStore) :
    (∃ translated, translateAll codecs store requested "deleteMany" = .ok translated ∧
      Translated codecs store requested translated ∧ (deleteMany codecs carry store requested s).1 = .ok () ∧
      Deleted store translated s.rows (deleteMany codecs carry store requested s).2.rows) ∨
    ∃ error, translateAll codecs store requested "deleteMany" = .error error ∧
      deleteMany codecs carry store requested s = (.error error,s) := by
  unfold deleteMany
  cases htranslate : translateAll codecs store requested "deleteMany" with
  | error error =>
    have hsome : ¬requested.isEmpty = true := by
      intro hempty
      rw [List.isEmpty_iff] at hempty
      subst hempty
      cases htranslate
    rw [if_neg hsome]
    exact .inr ⟨error,rfl,rfl⟩
  | ok translated =>
    have htranslated := translateAll_ok codecs htranslate
    by_cases hempty : requested.isEmpty = true
    · rw [if_pos hempty]
      rw [List.isEmpty_iff] at hempty
      have hnil : translated = [] := by
        have hkeys := htranslated.keys
        rw [hempty] at hkeys
        exact List.map_eq_nil_iff.mp hkeys
      subst hnil
      exact .inl ⟨[],rfl,htranslated,rfl,fun pair hpair => (by cases hpair),
        fun pair hpair => (by cases hpair),fun type key _ _ => rfl⟩
    · rw [if_neg hempty]
      exact .inl ⟨translated,rfl,htranslated,rfl,htranslated.deleted carry s⟩

/-- The operation touches the rows of a key. -/
def Operation.Changes (store : ProjectedStore) (key translated : JsString) : Operation → Prop
  | .getMany _ _ => False
  | .setMany other entries =>
    other = store ∧ ∃ k ∈ entries.map Prod.fst, k = key ∨ codecs.legacyKey store k = .ok translated
  | .deleteMany other requested =>
    other = store ∧ ∃ k ∈ requested, k = key ∨ codecs.legacyKey store k = .ok translated
  | .foreign other row _ => other = store ∧ row = translated

/-- A settled key stays settled while its rows are not touched. -/
theorem settled_step {store : ProjectedStore} {key translated : JsString} {value : Option Bytes}
    {s : KeyStore} {operation : Operation} (hkey : codecs.legacyKey store key = .ok translated)
    (h : Settled codecs digest store s.rows key translated value)
    (hunchanged : ¬operation.Changes codecs store key translated) :
    Settled codecs digest store (step codecs digest carry s operation).rows key translated value := by
  have hkept : (step codecs digest carry s operation).rows store.nativeType key =
        s.rows store.nativeType key ∧
      (step codecs digest carry s operation).rows store.legacyType translated =
        s.rows store.legacyType translated := by
    cases operation with
    | getMany other requested =>
      cases hread : getMany codecs digest carry other requested s with
      | mk outcome last =>
        cases outcome with
        | error error =>
          have hsame := getMany_error codecs digest carry hread
          simp [step,hread,hsame]
        | ok results =>
          obtain ⟨imported,_,hby⟩ := getMany_ok codecs digest carry hread
          have hunmended : store.nativeType = other.nativeType →
              ∀ one ∈ imported, one.key = key → one.mirror = none := by
            intro ht one hone heq
            have hstore := ProjectedStore.nativeType_injective ht
            subst hstore
            obtain ⟨_,found,hfound,himport⟩ := hby.found one hone
            rw [heq,hkey] at hfound
            cases hfound
            rw [heq] at himport
            have hsame := Except.ok.inj (h.symm.trans himport)
            rw [←hsame]
          have hlegacy : store.legacyType = other.nativeType →
              ∀ one ∈ imported, one.key = translated → one.mirror = none :=
            fun ht => absurd ht.symm (native_ne rfl)
          rw [step,hread]
          exact ⟨hby.frame _ _ hunmended,hby.frame _ _ hlegacy⟩
    | setMany other entries =>
      rcases setMany_cases codecs digest carry other entries s with
        ⟨projected,_,hprojected,_,hwritten⟩ | ⟨error,_,hset⟩
      · have hnative : store.nativeType = other.nativeType → key ∉ projected.map Projection.key := by
          intro ht hmem
          rw [hprojected.keys] at hmem
          exact hunchanged ⟨(ProjectedStore.nativeType_injective ht).symm,key,hmem,.inl rfl⟩
        have hlegacy : store.legacyType = other.legacyType →
            translated ∉ projected.map Projection.translated := by
          intro ht hmem
          have hstore := ProjectedStore.legacyType_injective ht
          subst hstore
          obtain ⟨one,hone,heq⟩ := List.mem_map.mp hmem
          have hin : one.key ∈ entries.map Prod.fst := hprojected.keys ▸ List.mem_map_of_mem hone
          refine hunchanged ⟨rfl,one.key,hin,.inr ?_⟩
          rw [hprojected.translated one hone,heq]
        exact ⟨hwritten.frame _ _ hnative fun ht => absurd ht (native_ne rfl),
          hwritten.frame _ _ (fun ht => absurd ht.symm (native_ne rfl)) hlegacy⟩
      · rw [step,hset]
        exact ⟨rfl,rfl⟩
    | deleteMany other requested =>
      rcases deleteMany_cases codecs carry other requested s with
        ⟨pairs,_,htranslated,_,hdeleted⟩ | ⟨error,_,hdelete⟩
      · have hnative : store.nativeType = other.nativeType → key ∉ pairs.map Prod.fst := by
          intro ht hmem
          rw [htranslated.keys] at hmem
          exact hunchanged ⟨(ProjectedStore.nativeType_injective ht).symm,key,hmem,.inl rfl⟩
        have hlegacy : store.legacyType = other.legacyType → translated ∉ pairs.map Prod.snd := by
          intro ht hmem
          have hstore := ProjectedStore.legacyType_injective ht
          subst hstore
          obtain ⟨pair,hpair,heq⟩ := List.mem_map.mp hmem
          have hin : pair.1 ∈ requested := htranslated.keys ▸ List.mem_map_of_mem hpair
          refine hunchanged ⟨rfl,pair.1,hin,.inr ?_⟩
          rw [htranslated.pair pair hpair,heq]
        exact ⟨hdeleted.frame _ _ hnative fun ht => absurd ht (native_ne rfl),
          hdeleted.frame _ _ (fun ht => absurd ht.symm (native_ne rfl)) hlegacy⟩
      · rw [step,hdelete]
        exact ⟨rfl,rfl⟩
    | foreign other row value =>
      have hnative : ¬(store.nativeType = other.legacyType ∧ key = row) :=
        fun ht => native_ne rfl ht.1
      have hlegacy : ¬(store.legacyType = other.legacyType ∧ translated = row) :=
        fun ht => hunchanged ⟨(ProjectedStore.legacyType_injective ht.1).symm,ht.2.symm⟩
      exact ⟨if_neg hnative,if_neg hlegacy⟩
  rw [Settled,importKey_congr codecs digest hkept.1 hkept.2]
  exact h

/-- So it does over a whole run. -/
theorem settled_run {store : ProjectedStore} {key translated : JsString} {value : Option Bytes}
    {s : KeyStore} {operations : List Operation} (hkey : codecs.legacyKey store key = .ok translated)
    (h : Settled codecs digest store s.rows key translated value)
    (hunchanged : ∀ operation ∈ operations, ¬operation.Changes codecs store key translated) :
    Settled codecs digest store (run codecs digest carry s operations).rows key translated value := by
  induction operations generalizing s with
  | nil => exact h
  | cons operation rest ih =>
    have hfirst := settled_step codecs digest carry hkey h (hunchanged operation List.mem_cons_self)
    exact ih hfirst fun other hother => hunchanged other (List.mem_cons_of_mem _ hother)

/-- Reading one key reads its pair. -/
theorem readProjected_single {store : ProjectedStore} {key translated : JsString} (rows : LegacyRows)
    (hkey : codecs.legacyKey store key = .ok translated) : readProjected codecs digest store [key] rows =
      (importKey codecs digest store rows key translated).map fun one => [one] := by
  have htranslate : translateAll codecs store [key] "getMany" = .ok [(key,translated)] := by
    unfold translateAll translate
    rw [List.mapM_cons,List.mapM_nil,hkey]
    rfl
  unfold readProjected
  rw [htranslate]
  simp only [bind,Except.bind]
  rw [List.mapM_cons,List.mapM_nil]
  cases importKey codecs digest store rows key translated <;> rfl

/-- What a read that threw or returned says of one key. -/
theorem get_eq {store : ProjectedStore} {key translated : JsString} (s : KeyStore)
    (hkey : codecs.legacyKey store key = .ok translated) :
    get codecs digest carry store key s =
      match importKey codecs digest store s.rows key translated with
      | .ok one => (.ok one.value,(getMany codecs digest carry store [key] s).2)
      | .error error => (.error error,s) := by
  unfold get getMany
  rw [readProjected_single codecs digest s.rows hkey]
  cases himport : importKey codecs digest store s.rows key translated with
  | error error => rfl
  | ok one =>
    simp only [List.isEmpty_cons,Bool.false_eq_true,if_false,Except.map]
    cases hvalue : one.value with
    | none => simp [readResults,hvalue]
    | some bytes => simp [readResults,hvalue]

/-- A settled key is read without a write. -/
theorem get_settled {store : ProjectedStore} {key translated : JsString} {value : Option Bytes}
    {s : KeyStore} (hkey : codecs.legacyKey store key = .ok translated)
    (h : Settled codecs digest store s.rows key translated value) :
    get codecs digest carry store key s = (.ok value,s) := by
  have hsame : (getMany codecs digest carry store [key] s).2 = s := by
    unfold getMany
    rw [readProjected_single codecs digest s.rows hkey,h]
    rfl
  rw [get_eq codecs digest carry s hkey,h,hsame]

end Adapter

end Baileyrs.LegacyProjection
