import Baileyrs.LegacyOwnership
import Baileyrs.LegacyCodecs

/-!
# Runs over a projected store

In every run of the adapter and of another owner of the legacy rows, a read
that finds a changed legacy row returns the conversion of that row and mends
the mirror, and returns the same from then on. In a run without another
owner, a read returns the bytes last set whenever every projection keeps its
fingerprint in the store.
-/

namespace Baileyrs.LegacyProjection

open JsString AtomicStore LegacyValues LegacyMirror

section Runs

variable (codecs : Codecs) (digest : Digest) (carry : String → Value → Value)

/-- No mirror row is a truncated envelope. -/
def MirrorsDecode (rows : LegacyRows) : Prop :=
  ∀ (store : ProjectedStore) key, ∃ envelope,
    decodeNativeEnvelope (rows.read store.nativeType key) = .ok envelope

/-- Rows without mirrors have no truncated one. -/
theorem decode_read {rows : LegacyRows} {type : String} {key : JsString} {value : Option Value}
    (hrow : rows type key = value) (hvalue : value = none ∨ ∃ bytes legacyValue,
      value = some (.bytes (encodeNativeEnvelope digest bytes legacyValue)) ∨
      value = some (.bytes (encodeNativeOnlyEnvelope digest bytes legacyValue))) :
    ∃ envelope, decodeNativeEnvelope (rows.read type key) = .ok envelope := by
  rw [LegacyRows.read,hrow]
  rcases hvalue with rfl | ⟨bytes,legacyValue,rfl | rfl⟩
  · exact ⟨none,rfl⟩
  · exact ⟨_,decode_encodeNativeEnvelope digest bytes legacyValue⟩
  · exact ⟨_,decode_encodeNativeOnlyEnvelope digest bytes legacyValue⟩

/-- An unchanged row decodes as before. -/
theorem MirrorsDecode.kept {rows last : LegacyRows} (h : MirrorsDecode rows) {store : ProjectedStore}
    {key : JsString} (hrow : last store.nativeType key = rows store.nativeType key) :
    ∃ envelope, decodeNativeEnvelope (last.read store.nativeType key) = .ok envelope := by
  rw [LegacyRows.read,hrow]
  exact h store key

/-- The adapter never writes a truncated envelope. -/
theorem MirrorsDecode.step {s : KeyStore} (hcarry : CarriesBytes carry) (h : MirrorsDecode s.rows)
    (operation : Operation) : MirrorsDecode (LegacyProjection.step codecs digest carry s operation).rows := by
  intro store key
  cases operation with
  | getMany other requested =>
    cases hread : getMany codecs digest carry other requested s with
    | mk outcome last =>
      cases outcome with
      | error error =>
        have hsame := getMany_error codecs digest carry hread
        rw [LegacyProjection.step,hread,hsame]
        exact h store key
      | ok results =>
        obtain ⟨imported,_,hby⟩ := getMany_ok codecs digest carry hread
        rw [LegacyProjection.step,hread]
        by_cases hmended : store.nativeType = other.nativeType ∧
            ∃ one ∈ imported, one.key = key ∧ one.mirror ≠ none
        · obtain ⟨ht,one,hone,rfl,hmirror⟩ := hmended
          obtain ⟨value,hvalue⟩ := Option.ne_none_iff_exists'.mp hmirror
          obtain ⟨_,translated,_,himport⟩ := hby.found one hone
          have hrow := hby.mended one hone value hvalue
          rw [←ht] at hrow
          refine decode_read digest hrow ?_
          rcases importKey_ok codecs digest himport with ⟨payload,hpayload⟩ | ⟨_,bytes,_,_,_,hresult⟩
          · rw [hpayload] at hvalue
            cases hvalue
          · rw [hresult] at hvalue
            cases bytes with
            | some bytes =>
              cases hvalue
              exact .inr ⟨bytes,_,.inl (congrArg some (hcarry _ _))⟩
            | none =>
              unfold mendMirror at hvalue
              dsimp only at hvalue
              split at hvalue
              · cases hvalue
              · cases hvalue
                exact .inl rfl
        · refine h.kept (hby.frame _ _ fun ht one hone heq => ?_)
          by_contra hmirror
          exact hmended ⟨ht,one,hone,heq,hmirror⟩
  | setMany other entries =>
    rcases setMany_cases codecs digest carry other entries s with
      ⟨projected,_,_,_,hwritten⟩ | ⟨error,_,hset⟩
    · by_cases hin : store.nativeType = other.nativeType ∧ key ∈ projected.map Projection.key
      · obtain ⟨ht,hkey⟩ := hin
        obtain ⟨one,hone,rfl⟩ := List.mem_map.mp hkey
        have hrow := hwritten.mirror one hone
        rw [←ht] at hrow
        refine decode_read digest hrow ?_
        unfold mirrorOf
        split
        · exact .inr ⟨_,_,.inl (congrArg some (hcarry _ _))⟩
        · exact .inr ⟨_,_,.inr (congrArg some (hcarry _ _))⟩
      · exact h.kept (hwritten.frame _ _ (fun ht hkey => hin ⟨ht,hkey⟩)
          fun ht => absurd ht (native_ne rfl))
    · rw [LegacyProjection.step,hset]
      exact h store key
  | deleteMany other requested =>
    rcases deleteMany_cases codecs carry other requested s with
      ⟨pairs,_,_,_,hdeleted⟩ | ⟨error,_,hdelete⟩
    · by_cases hin : store.nativeType = other.nativeType ∧ key ∈ pairs.map Prod.fst
      · obtain ⟨ht,hkey⟩ := hin
        obtain ⟨pair,hpair,rfl⟩ := List.mem_map.mp hkey
        have hrow := hdeleted.mirror pair hpair
        rw [←ht] at hrow
        exact decode_read digest hrow (.inl rfl)
      · exact h.kept (hdeleted.frame _ _ (fun ht hkey => hin ⟨ht,hkey⟩)
          fun ht => absurd ht (native_ne rfl))
    · rw [LegacyProjection.step,hdelete]
      exact h store key
  | foreign other row value =>
    exact h.kept (if_neg fun ht => native_ne rfl ht.1)

/-- So no run does. -/
theorem mirrorsDecode_run {s : KeyStore} (hcarry : CarriesBytes carry) (h : MirrorsDecode s.rows)
    (operations : List Operation) : MirrorsDecode (run codecs digest carry s operations).rows := by
  induction operations generalizing s with
  | nil => exact h
  | cons operation rest ih => exact ih (h.step codecs digest carry hcarry operation)

/-- What a read of a key does whose legacy row another owner changed. -/
structure ForeignWins (store : ProjectedStore) (key translated : JsString) (s : KeyStore) : Prop where
  /-- It returns what the legacy row converts to. -/
  returns : (get codecs digest carry store key s).1 = importLegacy codecs store s.rows key translated
  /-- Bytes replace the mirror. -/
  replaced : ∀ bytes, importLegacy codecs store s.rows key translated = .ok (some bytes) →
    (get codecs digest carry store key s).2.rows store.nativeType key =
      some (.bytes (encodeNativeEnvelope digest bytes (s.rows.read store.legacyType translated)))
  /-- Without bytes no mirror is left. -/
  removed : importLegacy codecs store s.rows key translated = .ok none →
    ((get codecs digest carry store key s).2.rows.read store.nativeType key).isNullish = true
  /-- No other row changes. -/
  frame : ∀ type other, ¬(type = store.nativeType ∧ other = key) →
    (get codecs digest carry store key s).2.rows type other = s.rows type other
  /-- A conversion that throws changes nothing. -/
  throws : ∀ error, importLegacy codecs store s.rows key translated = .error error →
    (get codecs digest carry store key s).2 = s
  /-- Until the rows change, all later reads return the same and write nothing. -/
  later : ∀ value, importLegacy codecs store s.rows key translated = .ok value → ∀ operations,
    (∀ operation ∈ operations, ¬operation.Changes codecs store key translated) →
    get codecs digest carry store key
        (run codecs digest carry (get codecs digest carry store key s).2 operations) =
      (.ok value,run codecs digest carry (get codecs digest carry store key s).2 operations)
  /-- A batch that reads the key returns the same for it, and so do all reads after it. -/
  batch : ∀ requested results last, key ∈ requested →
    getMany codecs digest carry store requested s = (.ok results,last) →
    ∃ value, importLegacy codecs store s.rows key translated = .ok value ∧
      (∀ bytes, (key,bytes) ∈ results ↔ value = some bytes) ∧
      ∀ operations, (∀ operation ∈ operations, ¬operation.Changes codecs store key translated) →
        get codecs digest carry store key (run codecs digest carry last operations) =
          (.ok value,run codecs digest carry last operations)

/-- A batch that returns has read each of its keys, and leaves it settled. -/
theorem getMany_settles {store : ProjectedStore} {key translated : JsString} {s last : KeyStore}
    {requested : List JsString} {results : List (JsString × Bytes)} (hcarry : CarriesBytes carry)
    (hkey : codecs.legacyKey store key = .ok translated) (hin : key ∈ requested)
    (h : getMany codecs digest carry store requested s = (.ok results,last)) :
    ∃ one, importKey codecs digest store s.rows key translated = .ok one ∧
      (∀ bytes, (key,bytes) ∈ results ↔ one.value = some bytes) ∧ last.rows store.nativeType key =
        one.mirror.elim (s.rows store.nativeType key) (rowOf carry store.nativeType) ∧
      Settled codecs digest store last.rows key translated one.value := by
  obtain ⟨imported,rfl,hby⟩ := getMany_ok codecs digest carry h
  have hunique : ∀ one ∈ imported, one.key = key →
      importKey codecs digest store s.rows key translated = .ok one := by
    intro one hone heq
    obtain ⟨_,found,hfound,himport⟩ := hby.found one hone
    rw [heq,hkey] at hfound
    cases hfound
    rw [heq] at himport
    exact himport
  obtain ⟨one,hone,heq⟩ := hby.every key hin
  have himport := hunique one hone heq
  have hlegacy : last.rows store.legacyType translated = s.rows store.legacyType translated :=
    hby.frame _ _ fun ht => absurd ht.symm (native_ne rfl)
  have hnative : last.rows store.nativeType key =
      one.mirror.elim (s.rows store.nativeType key) (rowOf carry store.nativeType) := by
    cases hmirror : one.mirror with
    | some value =>
      have hrow := hby.mended one hone value hmirror
      rw [heq] at hrow
      exact hrow
    | none =>
      refine hby.frame _ _ fun _ other hother hsame => ?_
      rw [←Except.ok.inj (himport.symm.trans (hunique other hother hsame))]
      exact hmirror
  refine ⟨one,himport,fun bytes => ⟨fun hmem => ?_,fun hvalue => ?_⟩,hnative,
    importKey_settles codecs digest carry hcarry himport hlegacy hnative⟩
  · obtain ⟨other,hother,hpair⟩ := List.mem_filterMap.mp hmem
    obtain ⟨value,hvalue,hresult⟩ := Option.map_eq_some_iff.mp hpair
    obtain ⟨hname,hbytes⟩ := Prod.mk.inj hresult
    rw [Except.ok.inj (himport.symm.trans (hunique other hother hname)),hvalue,hbytes]
  · refine List.mem_filterMap.mpr ⟨one,hone,?_⟩
    rw [hvalue,heq]
    rfl

/-- A single read that returns is a batch of one. -/
theorem getMany_single {store : ProjectedStore} {key translated : JsString} {s : KeyStore} {one : Imported}
    (hkey : codecs.legacyKey store key = .ok translated)
    (himport : importKey codecs digest store s.rows key translated = .ok one) :
    ∃ results, getMany codecs digest carry store [key] s = (.ok results,(get codecs digest carry store key s).2) := by
  have hget := get_eq codecs digest carry s hkey
  rw [himport] at hget
  rw [hget]
  unfold getMany
  rw [readProjected_single codecs digest s.rows hkey,himport]
  exact ⟨_,rfl⟩

/-- A read of a key whose mirror is stale. -/
theorem foreignWins_of_stale {store : ProjectedStore} {key translated : JsString} {s : KeyStore}
    (hcarry : CarriesBytes carry) (hdecode : MirrorsDecode s.rows)
    (hkey : codecs.legacyKey store key = .ok translated) (hstale : Stale digest store s.rows key translated) :
    ForeignWins codecs digest carry store key translated s := by
  obtain ⟨envelope,henvelope⟩ := hdecode store key
  have himport := importKey_stale codecs digest hstale henvelope
  have hget := get_eq codecs digest carry s hkey
  cases hvalue : importLegacy codecs store s.rows key translated with
  | error error =>
    rw [hvalue] at himport
    have hthrown : get codecs digest carry store key s = (.error error,s) := by
      rw [hget,himport]
      rfl
    refine ⟨?_,fun bytes h => ?_,fun h => ?_,fun type other _ => ?_,fun _ _ => ?_,fun value h => ?_,
      fun requested results last hin h => ?_⟩
    · rw [hthrown,hvalue]
    · rw [hvalue] at h
      cases h
    · rw [hvalue] at h
      cases h
    · rw [hthrown]
    · rw [hthrown]
    · rw [hvalue] at h
      cases h
    · obtain ⟨one,hone,_⟩ := getMany_settles codecs digest carry hcarry hkey hin h
      rw [himport] at hone
      cases hone
  | ok value =>
    rw [hvalue] at himport
    obtain ⟨results,hsingle⟩ := getMany_single codecs digest carry hkey himport
    obtain ⟨one,hone,_,hnative,hsettled⟩ :=
      getMany_settles codecs digest carry hcarry hkey List.mem_cons_self hsingle
    have hfound := Except.ok.inj (hone.symm.trans himport)
    rw [hfound] at hnative hsettled
    refine ⟨?_,fun bytes h => ?_,fun h => ?_,fun type other hother => ?_,fun error h => ?_,
      fun found h operations hunchanged => ?_,fun requested results last hin h => ?_⟩
    · rw [hget,himport,hvalue]
      rfl
    · rw [hvalue] at h
      cases h
      rw [hnative]
      exact congrArg some (hcarry _ _)
    · rw [hvalue] at h
      cases h
      rw [LegacyRows.read,hnative]
      unfold mendMirror
      dsimp only
      split
      · rename_i hnull
        exact hnull
      · rfl
    · obtain ⟨imported,_,hby⟩ := getMany_ok codecs digest carry hsingle
      refine hby.frame type other fun ht one hone heq => ?_
      have hmem := (hby.found one hone).1
      rw [List.mem_singleton] at hmem
      exact absurd ⟨ht,heq.symm.trans hmem⟩ hother
    · rw [hvalue] at h
      cases h
    · rw [hvalue] at h
      cases h
      exact get_settled codecs digest carry hkey
        (settled_run codecs digest carry hkey hsettled hunchanged)
    · obtain ⟨one,hone,hresults,_,hsettled⟩ := getMany_settles codecs digest carry hcarry hkey hin h
      have hfound := Except.ok.inj (hone.symm.trans himport)
      rw [hfound] at hresults hsettled
      exact ⟨value,hvalue,hresults,fun operations hunchanged => get_settled codecs digest carry hkey
        (settled_run codecs digest carry hkey hsettled hunchanged)⟩

/-- In every run of the adapter and of another owner, a read whose legacy row
no longer has the fingerprint of its mirror returns the conversion of that
row, mends the mirror, and is repeated without a write until the row changes. -/
theorem foreign_write_wins {store : ProjectedStore} {key translated : JsString} (start : KeyStore)
    (operations : List Operation) (hcarry : CarriesBytes carry) (hdecode : MirrorsDecode start.rows)
    (hkey : codecs.legacyKey store key = .ok translated)
    (hstale : Stale digest store (run codecs digest carry start operations).rows key translated) :
    ForeignWins codecs digest carry store key translated (run codecs digest carry start operations) :=
  foreignWins_of_stale codecs digest carry hcarry
    (mirrorsDecode_run codecs digest carry hcarry hdecode operations) hkey hstale

/-- Whether the mirror of a key is stale. -/
def isStale (store : ProjectedStore) (rows : LegacyRows) (key translated : JsString) : Bool :=
  match decodeNativeEnvelope (rows.read store.nativeType key) with
  | .ok (some envelope) =>
    !envelopeMatchesLegacy digest envelope (rows.read store.legacyType translated)
  | _ => true

theorem isStale_iff {store : ProjectedStore} {rows : LegacyRows} {key translated : JsString} :
    isStale digest store rows key translated = true ↔ Stale digest store rows key translated := by
  unfold isStale Stale
  constructor
  · intro h envelope hdecode
    rw [hdecode] at h
    exact Bool.not_eq_true' _ |>.mp h
  · intro h
    split
    · rename_i envelope hdecode
      rw [h envelope hdecode]
      rfl
    · rfl

/-- A projection keeps its fingerprint in the store. -/
def Kept (store : ProjectedStore) (value : Value) : Prop :=
  fingerprintLegacy digest ((rowOf carry store.legacyType value).getD .null) =
    fingerprintLegacy digest value

/-- Whether the projection of an entry keeps its fingerprint. -/
def keepsEntry (store : ProjectedStore) (entry : JsString × Bytes) : Bool :=
  match codecs.toLegacy store entry.1 entry.2 with
  | .ok (some value) =>
    fingerprintLegacy digest ((rowOf carry store.legacyType value).getD .null) ==
      fingerprintLegacy digest value
  | _ => true

theorem keepsEntry_iff {store : ProjectedStore} {entry : JsString × Bytes} :
    keepsEntry codecs digest carry store entry = true ↔
      ∀ value, codecs.toLegacy store entry.1 entry.2 = .ok (some value) → Kept digest carry store value := by
  unfold keepsEntry Kept
  constructor
  · intro h value hvalue
    rw [hvalue] at h
    exact beq_iff_eq.mp h
  · intro h
    split
    · rename_i value hvalue
      exact beq_iff_eq.mpr (h value hvalue)
    · rfl

/-- Every projection a call writes keeps its fingerprint. -/
def Operation.Keeps : Operation → Prop
  | .setMany store entries => ∀ entry ∈ entries, ∀ value,
    codecs.toLegacy store entry.1 entry.2 = .ok (some value) → Kept digest carry store value
  | _ => True

/-- A call on keys of a set, and no write of another owner. -/
def Operation.Over (keys : ProjectedStore → JsString → Prop) : Operation → Prop
  | .getMany store requested => ∀ key ∈ requested, keys store key
  | .setMany store entries => ∀ entry ∈ entries, keys store entry.1
  | .deleteMany store requested => ∀ key ∈ requested, keys store key
  | .foreign _ _ _ => False

/-- Keys whose legacy keys are pairwise distinct. -/
def DistinctProjections (keys : ProjectedStore → JsString → Prop) : Prop :=
  ∀ store key other translated, keys store key → keys store other →
    codecs.legacyKey store key = .ok translated → codecs.legacyKey store other = .ok translated →
    key = other

/-- A write settles each of its keys on the bytes written. -/
theorem settled_of_write {store : ProjectedStore} {key translated : JsString} {s : KeyStore}
    {entries : List (JsString × Bytes)} {projected : List Projection} {last : LegacyRows}
    (hcarry : CarriesBytes carry) (hkey : codecs.legacyKey store key = .ok translated)
    (hprojected : Projected codecs store entries projected)
    (hwritten : Written digest carry store projected s.rows last)
    (hkeeps : (Operation.setMany store entries).Keeps codecs digest carry) (hin : key ∈ entries.map Prod.fst) :
    Settled codecs digest store last key translated (InsertionMap.find entries key) := by
  rw [←hprojected.keys] at hin
  obtain ⟨one,hone,rfl⟩ := List.mem_map.mp hin
  have hentry : (one.key,one.value) ∈ entries := by
    rw [←hprojected.listed]
    exact List.mem_map_of_mem hone
  have hfind := (InsertionMap.find_eq_some_iff hprojected.nodup).mpr hentry
  have htranslated : one.translated = translated :=
    Except.ok.inj ((hprojected.translated one hone).symm.trans hkey)
  have hnative := hwritten.mirror one hone
  rw [hfind]
  refine Mirrors.settled codecs digest ?_
  unfold mirrorOf at hnative
  cases hvalue : one.legacyValue with
  | some value =>
    have htoLegacy := hprojected.legacyValue one hone
    rw [hvalue] at htoLegacy
    have hlegacy := hwritten.legacy one hone value hvalue
    rw [htranslated] at hlegacy
    rw [hvalue] at hnative
    refine mirrors_of_encode digest (hnative.trans (congrArg some (hcarry _ _))) ?_
    rw [LegacyRows.read,hlegacy]
    exact hkeeps _ hentry value htoLegacy
  | none =>
    have hlegacy := hwritten.kept one hone hvalue
    rw [htranslated] at hlegacy
    rw [hvalue,htranslated] at hnative
    refine mirrors_of_encodeNativeOnly digest (hnative.trans (congrArg some (hcarry _ _))) ?_
    rw [LegacyRows.read,LegacyRows.read,hlegacy]

/-- A deletion settles each of its keys on nothing. -/
theorem settled_of_delete {store : ProjectedStore} {key translated : JsString} {s : KeyStore}
    {requested : List JsString} {pairs : List (JsString × JsString)} {last : LegacyRows}
    (hkey : codecs.legacyKey store key = .ok translated) (htranslated : Translated codecs store requested pairs)
    (hdeleted : Deleted store pairs s.rows last) (hin : key ∈ requested) :
    Settled codecs digest store last key translated none := by
  rw [←htranslated.keys] at hin
  obtain ⟨pair,hpair,rfl⟩ := List.mem_map.mp hin
  have hsecond : pair.2 = translated := Except.ok.inj ((htranslated.pair pair hpair).symm.trans hkey)
  have hlegacy := hdeleted.legacy pair hpair
  rw [hsecond] at hlegacy
  unfold Settled importKey importLegacy LegacyRows.read
  rw [hdeleted.mirror pair hpair,hlegacy]
  rfl

/-- Every key of the set is settled on what it holds. -/
def Refines (keys : ProjectedStore → JsString → Prop) (contents : Contents) (s : KeyStore) : Prop :=
  ∀ store key translated value, keys store key → codecs.legacyKey store key = .ok translated →
    contents store key = some value → Settled codecs digest store s.rows key translated value

/-- An operation changes the rows of a key of the set only if it names that key. -/
theorem not_changes {keys : ProjectedStore → JsString → Prop} {store other : ProjectedStore}
    {key translated : JsString} {named : List JsString} (hdistinct : DistinctProjections codecs keys)
    (hin : keys store key) (hkey : codecs.legacyKey store key = .ok translated)
    (hover : ∀ k ∈ named, keys other k) (hunnamed : ¬(store = other ∧ key ∈ named)) :
    ¬(other = store ∧ ∃ k ∈ named, k = key ∨ codecs.legacyKey store k = .ok translated) := by
  rintro ⟨rfl,k,hk,rfl | hsame⟩
  · exact hunnamed ⟨rfl,hk⟩
  · have heq := hdistinct _ _ _ _ hin (hover k hk) hkey hsame
    exact hunnamed ⟨rfl,heq ▸ hk⟩

/-- An operation keeps the adapter and the contents together. -/
theorem Refines.step {keys : ProjectedStore → JsString → Prop} {contents : Contents} {s : KeyStore}
    {operation : Operation} (h : Refines codecs digest keys contents s) (hcarry : CarriesBytes carry)
    (hdistinct : DistinctProjections codecs keys) (hover : operation.Over keys)
    (hkeeps : operation.Keeps codecs digest carry) : Refines codecs digest keys (contentsStep codecs contents operation)
      (LegacyProjection.step codecs digest carry s operation) := by
  intro store key translated value hin hkey hvalue
  cases operation with
  | getMany other requested =>
    exact settled_step codecs digest carry hkey (h store key translated value hin hkey hvalue) id
  | setMany other entries =>
    rcases setMany_cases codecs digest carry other entries s with
      ⟨projected,hproject,hprojected,_,hwritten⟩ | ⟨error,hproject,hset⟩
    · have hok : (Except.ok projected : Except StoreError (List Projection)).isOk = true := rfl
      rw [contentsStep,hproject,if_pos hok] at hvalue
      by_cases hnamed : store = other ∧ key ∈ entries.map Prod.fst
      · rw [if_pos hnamed] at hvalue
        obtain ⟨rfl,hkeyin⟩ := hnamed
        cases hvalue
        exact settled_of_write codecs digest carry hcarry hkey hprojected hwritten hkeeps hkeyin
      · rw [if_neg hnamed] at hvalue
        have hkeys : ∀ k ∈ entries.map Prod.fst, keys other k := by
          intro k hk
          obtain ⟨entry,hentry,rfl⟩ := List.mem_map.mp hk
          exact hover entry hentry
        exact settled_step codecs digest carry hkey (h store key translated value hin hkey hvalue)
          (not_changes codecs hdistinct hin hkey hkeys hnamed)
    · have hno : ¬(Except.error error : Except StoreError (List Projection)).isOk = true :=
        Bool.false_ne_true
      rw [contentsStep,hproject,if_neg hno] at hvalue
      rw [LegacyProjection.step,hset]
      exact h store key translated value hin hkey hvalue
  | deleteMany other requested =>
    rcases deleteMany_cases codecs carry other requested s with
      ⟨pairs,htranslate,htranslated,_,hdeleted⟩ | ⟨error,htranslate,hdelete⟩
    · have hok : (Except.ok pairs : Except StoreError (List (JsString × JsString))).isOk = true := rfl
      rw [contentsStep,htranslate,if_pos hok] at hvalue
      by_cases hnamed : store = other ∧ key ∈ requested
      · rw [if_pos hnamed] at hvalue
        obtain ⟨rfl,hkeyin⟩ := hnamed
        cases hvalue
        exact settled_of_delete codecs digest hkey htranslated hdeleted hkeyin
      · rw [if_neg hnamed] at hvalue
        exact settled_step codecs digest carry hkey (h store key translated value hin hkey hvalue)
          (not_changes codecs hdistinct hin hkey hover hnamed)
    · have hno : ¬(Except.error error : Except StoreError (List (JsString × JsString))).isOk = true :=
        Bool.false_ne_true
      rw [contentsStep,htranslate,if_neg hno] at hvalue
      rw [LegacyProjection.step,hdelete]
      exact h store key translated value hin hkey hvalue
  | foreign other row value => exact hover.elim

/-- So does a run. -/
theorem refines_run {keys : ProjectedStore → JsString → Prop} {contents : Contents} {s : KeyStore}
    {operations : List Operation} (h : Refines codecs digest keys contents s)
    (hcarry : CarriesBytes carry) (hdistinct : DistinctProjections codecs keys)
    (hover : ∀ operation ∈ operations, operation.Over keys)
    (hkeeps : ∀ operation ∈ operations, operation.Keeps codecs digest carry) :
    Refines codecs digest keys (operations.foldl (contentsStep codecs) contents)
      (run codecs digest carry s operations) := by
  induction operations generalizing contents s with
  | nil => exact h
  | cons operation rest ih =>
    have hfirst := h.step codecs digest carry hcarry hdistinct (hover operation List.mem_cons_self)
      (hkeeps operation List.mem_cons_self)
    exact ih hfirst (fun other hother => hover other (List.mem_cons_of_mem _ hother))
      fun other hother => hkeeps other (List.mem_cons_of_mem _ hother)

/-- What reads of a key return and write. -/
structure ExactBytes (store : ProjectedStore) (key : JsString) (contents : Option (Option Bytes))
    (s : KeyStore) : Prop where
  /-- A read returns what was last set or deleted, and writes nothing. -/
  exact : ∀ value, contents = some value → get codecs digest carry store key s = (.ok value,s)
  /-- A repeated read returns the same and writes nothing. -/
  repeated : ∀ value last, get codecs digest carry store key s = (.ok value,last) →
    get codecs digest carry store key last = (.ok value,last)

/-- In every run whose projections all keep their fingerprint in the store, a
read returns the bytes last set, or nothing after a deletion, and a repeated
read writes nothing. -/
theorem get_exact_bytes (start : KeyStore) (operations : List Operation)
    (keys : ProjectedStore → JsString → Prop) (hcarry : CarriesBytes carry)
    (hdistinct : DistinctProjections codecs keys)
    (hover : ∀ operation ∈ operations, operation.Over keys)
    (hkeeps : ∀ operation ∈ operations, operation.Keeps codecs digest carry)
    {store : ProjectedStore} {key translated : JsString} (hin : keys store key)
    (hkey : codecs.legacyKey store key = .ok translated) :
    ExactBytes codecs digest carry store key (contentsAfter codecs operations store key)
      (run codecs digest carry start operations) := by
  have hstart : Refines codecs digest keys (fun _ _ => none) start :=
    fun store key translated value _ _ hvalue => by cases hvalue
  have hrun := refines_run codecs digest carry hstart hcarry hdistinct hover hkeeps
  refine ⟨fun value hvalue => ?_,fun value last hget => ?_⟩
  · exact get_settled codecs digest carry hkey (hrun store key translated value hin hkey hvalue)
  · have heq := get_eq codecs digest carry (run codecs digest carry start operations) hkey
    cases himport : importKey codecs digest store (run codecs digest carry start operations).rows key
        translated with
    | error error =>
      rw [himport,hget] at heq
      cases heq
    | ok one =>
      obtain ⟨results,hsingle⟩ := getMany_single codecs digest carry hkey himport
      rw [hget] at hsingle
      obtain ⟨found,hfound,_,_,hsettled⟩ :=
        getMany_settles codecs digest carry hcarry hkey List.mem_cons_self hsingle
      rw [himport,hget] at heq
      have hone := Except.ok.inj (hfound.symm.trans himport)
      have hvalue : value = one.value := Except.ok.inj (congrArg Prod.fst heq)
      rw [hvalue,←hone]
      exact get_settled codecs digest carry hkey hsettled

end Runs

/-- What a store that persists with the replacer and the reviver reads back. -/
def throughStore (byteOf : Value → Option UInt8) (value : Value) : Value :=
  match stringify byteOf value with
  | .ok (some tree) =>
    match revive byteOf tree with
    | .ok read => read
    | .error _ => .null
  | _ => .null

/-- The store reads a value back as it was set, or as its persisted form. -/
def Persisting (byteOf : Value → Option UInt8) (carry : String → Value → Value) : Prop :=
  ∀ type value, carry type value = value ∨ carry type value = throughStore byteOf value

/-- A carried value is read back as it was set. -/
theorem throughStore_carried {byteOf : Value → Option UInt8} {value : Value}
    (h : Carried byteOf value) : throughStore byteOf value = value := by
  obtain ⟨tree,hwrite,hread⟩ := h
  rw [throughStore,hwrite]
  dsimp only
  rw [hread]

/-- A plain value is read back as it was set. -/
theorem Persisting.plain {byteOf : Value → Option UInt8} {carry : String → Value → Value}
    (h : Persisting byteOf carry) (type : String) {value : Value} (hplain : Plain value) :
    carry type value = value := by
  rcases h type value with hsame | hstored
  · exact hsame
  · rw [hstored]
    exact throughStore_carried (hplain.carried byteOf)

/-- Such a store gives bytes back. -/
theorem Persisting.bytes {byteOf : Value → Option UInt8} {carry : String → Value → Value}
    (h : Persisting byteOf carry) : CarriesBytes carry :=
  fun type data => h.plain type (.bytes data)

/-- A plain projection keeps its fingerprint. -/
theorem Persisting.kept {byteOf : Value → Option UInt8} {carry : String → Value → Value}
    (h : Persisting byteOf carry) (digest : Digest) (store : ProjectedStore) {value : Value}
    (hplain : Plain value) : Kept digest carry store value := by
  unfold Kept rowOf
  split
  · rename_i hnull
    exact (fingerprint_nullish digest hnull).symm
  · rw [Option.getD_some,h.plain _ hplain]

mutual

/-- Strings and numbers of a canonical form, in order. -/
def leaves : Value → Bytes
  | .string text => text.map fun u => u.toNat.toUInt8
  | .number x => [x.bits.toUInt8]
  | .array items => leavesItems items
  | .object members => leavesMembers members
  | _ => []

/-- Strings and numbers of items. -/
def leavesItems : List Value → Bytes
  | [] => []
  | item::rest => leaves item++leavesItems rest

/-- Strings and numbers of members. -/
def leavesMembers : List (JsString × Value) → Bytes
  | [] => []
  | (_,value)::rest => leaves value++leavesMembers rest

end

/-- A hash that tells the small values below apart. -/
def leafDigest : Digest where
  hash value := (leaves value++List.replicate 32 0).take 32
  length_hash value := by
    rw [List.length_take,List.length_append,List.length_replicate]
    omega

/-- Codecs of a native session the legacy format cannot express. -/
def nativeOnlyCodecs : Codecs where
  legacyKey _ key := .ok key
  fromLegacy _ _ _ := .error (.typeError "legacy session record must be an object")
  toLegacy _ _ _ := .ok none

/-- The codecs with the sync states of the source. -/
def sampleCodecs : Codecs := createLegacyCodecs (fun _ _ => true) nativeOnlyCodecs

/-- A store that persists with the replacer and the reviver. -/
def sampleCarry (_ : String) (value : Value) : Value := throughStore (fun _ => some 0) value

/-- A store without rows. -/
def emptyStore : KeyStore := ⟨fun _ _ => none,0⟩

/-- A sync state without entries. -/
def syncState (version : String) : Bytes :=
  encodeUtf8 (ofString "\x7b\"version\":"++ofString version++
    ofString ",\"hash\":[],\"index_value_map\":\x7b\x7d\x7d")

/-- The only key of the samples. -/
def regular : JsString := ofString "regular"

theorem sampleCarry_bytes : CarriesBytes sampleCarry :=
  fun _ data => throughStore_carried (carried_bytes (fun _ => some 0) data)

theorem emptyStore_decode : MirrorsDecode emptyStore.rows := fun _ _ => ⟨none,rfl⟩

/-- A result is read off its optional value. -/
theorem ok_of_toOption {α : Type} {outcome : Except StoreError α} {value : α}
    (h : outcome.toOption = some value) : outcome = .ok value := by
  cases outcome with
  | error error => cases h
  | ok found => exact congrArg Except.ok (Option.some.inj h)

/-- A sync state whose version is negative zero is set and read back changed. -/
theorem get_exact_bytes_negative_zero :
    (get sampleCodecs leafDigest sampleCarry .syncVersion regular
      (run sampleCodecs leafDigest sampleCarry emptyStore
        [.setMany .syncVersion [(regular,syncState "-0")]])).1 = .ok (some (syncState "0")) ∧
    contentsAfter sampleCodecs [.setMany .syncVersion [(regular,syncState "-0")]] .syncVersion regular =
      some (some (syncState "-0")) ∧ syncState "0" ≠ syncState "-0" :=
  ⟨ok_of_toOption (by decide +kernel),by decide +kernel,by decide⟩

/-- A session the legacy format cannot express and a sync state, both exact. -/
theorem get_exact_bytes_session :
    ExactBytes sampleCodecs leafDigest sampleCarry .session regular (some (some [1,2]))
      (run sampleCodecs leafDigest sampleCarry emptyStore
        [.setMany .session [(regular,[1,2])],.setMany .syncVersion [(regular,syncState "1")],
          .deleteMany .syncVersion [regular]]) := by
  have hkeeps : ∀ operation ∈ [Operation.setMany .session [(regular,[1,2])],
      .setMany .syncVersion [(regular,syncState "1")],.deleteMany .syncVersion [regular]],
      operation.Keeps sampleCodecs leafDigest sampleCarry := by
    have hsession : keepsEntry sampleCodecs leafDigest sampleCarry .session (regular,[1,2]) = true := rfl
    have hstate : keepsEntry sampleCodecs leafDigest sampleCarry .syncVersion
        (regular,syncState "1") = true := by decide +kernel
    intro operation hoperation
    simp only [List.mem_cons,List.not_mem_nil,or_false] at hoperation
    rcases hoperation with rfl | rfl | rfl
    · intro entry hentry
      rw [List.mem_singleton.mp hentry]
      exact (keepsEntry_iff sampleCodecs leafDigest sampleCarry).mp hsession
    · intro entry hentry
      rw [List.mem_singleton.mp hentry]
      exact (keepsEntry_iff sampleCodecs leafDigest sampleCarry).mp hstate
    · exact trivial
  have hover : ∀ operation ∈ [Operation.setMany .session [(regular,[1,2])],
      .setMany .syncVersion [(regular,syncState "1")],.deleteMany .syncVersion [regular]],
      operation.Over fun _ _ => True := by
    intro operation hoperation
    simp only [List.mem_cons,List.not_mem_nil,or_false] at hoperation
    rcases hoperation with rfl | rfl | rfl
    · exact fun _ _ => trivial
    · exact fun _ _ => trivial
    · exact fun _ _ => trivial
  have hdistinct : DistinctProjections sampleCodecs fun _ _ => True := by
    intro store key other translated _ _ hkey hother
    have hsame : ∀ key, sampleCodecs.legacyKey store key = .ok key := by
      intro key
      cases store <;> rfl
    rw [hsame] at hkey hother
    exact (Except.ok.inj hkey).trans (Except.ok.inj hother).symm
  have hcontents : contentsAfter sampleCodecs [Operation.setMany .session [(regular,[1,2])],
      .setMany .syncVersion [(regular,syncState "1")],.deleteMany .syncVersion [regular]]
      .session regular = some (some [1,2]) := by decide +kernel
  rw [←hcontents]
  exact get_exact_bytes sampleCodecs leafDigest sampleCarry emptyStore _ (fun _ _ => True)
    sampleCarry_bytes hdistinct hover hkeeps trivial rfl

/-- Another owner replaces a sync state. -/
theorem foreign_write_wins_state :
    ForeignWins sampleCodecs leafDigest sampleCarry .syncVersion regular regular
      (run sampleCodecs leafDigest sampleCarry emptyStore
        [.setMany .syncVersion [(regular,syncState "1")],
          .foreign .syncVersion regular (.object [(ofString "version",.number .zero),
            (ofString "hash",.bytes [7])])]) :=
  foreign_write_wins sampleCodecs leafDigest sampleCarry emptyStore _ sampleCarry_bytes
    emptyStore_decode rfl ((isStale_iff leafDigest).mp (by decide +kernel))

end Baileyrs.LegacyProjection
