import Baileyrs.LegacyAtomicAgreement
import Baileyrs.TokenRowText

/-!
# Atomic calls on both stores

Each atomic call touches only the rows that the adapter loads for it, and sets
only values whose projection exists: sync states by assumption, token rows
because what is decoded is valid and a valid row is read back. So in every run
whose sync states keep their fingerprint in the store, the adapter and the
memory store give the same outcomes and hold the same rows.
-/

namespace Baileyrs.LegacyProjection

open JsString AtomicStore SnapshotRows LegacyValues LegacyMirror

section Programs

variable {codecs : Codecs} {digest : Digest} {carry : String → Value → Value}
variable {allowed : JsString → Prop}

/-- One program after another. -/
theorem Touches.bind {R R' : Type} {result : R → Prop} {last : R' → Prop} {program : RowProgram R}
    {next : R → RowProgram R'} (h : Touches codecs digest carry allowed result program)
    (hnext : ∀ value, result value → Touches codecs digest carry allowed last (next value)) :
    Touches codecs digest carry allowed last (program >>= next) := by
  induction h with
  | done value hvalue => exact hnext value hvalue
  | throw error => exact .throw error
  | get store key _ hallowed _ ih => exact .get store key _ hallowed ih
  | set store key value _ hallowed hvalue _ ih => exact .set store key value _ hallowed hvalue ih
  | delete store key _ hallowed _ ih => exact .delete store key _ hallowed ih

/-- A program for each item. -/
theorem touches_forM {α : Type} {items : List α} {f : α → RowProgram Unit}
    (h : ∀ item ∈ items, Touches codecs digest carry allowed (fun _ => True) (f item)) :
    Touches codecs digest carry allowed (fun _ => True) (items.forM f) := by
  induction items with
  | nil => exact .done () trivial
  | cons item rest ih =>
    have hrest := ih fun other hother => h other (List.mem_cons_of_mem _ hother)
    exact (h item List.mem_cons_self).bind fun _ _ => hrest

theorem touches_getRow {store : AtomicNamespace} {key : JsString} (h : allowed (rowKey store key)) :
    Touches codecs digest carry allowed (fun _ => True) (getRow store key) :=
  .get store key _ h fun value => .done value trivial

theorem touches_setRow {store : AtomicNamespace} {key : JsString} {value : Bytes}
    (h : allowed (rowKey store key)) (hvalue : Settable codecs digest carry store key value) :
    Touches codecs digest carry allowed (fun _ => True) (setRow store key value) :=
  .set store key value _ h hvalue (.done () trivial)

theorem touches_deleteRow {store : AtomicNamespace} {key : JsString} (h : allowed (rowKey store key)) :
    Touches codecs digest carry allowed (fun _ => True) (deleteRow store key) :=
  .delete store key _ h (.done () trivial)

/-- Raw rows take any bytes. -/
theorem settable_raw {store : AtomicNamespace} {type : String} (h : routeOf store = .raw type)
    (key : JsString) (value : Bytes) : Settable codecs digest carry store key value := by
  unfold Settable
  rw [h]
  trivial

/-- An index is read from its row. -/
theorem touches_readIndex {key : String} (h : allowed (rowKey metaRows (ofString key))) :
    Touches codecs digest carry allowed (fun _ => True) (readIndex key) := by
  refine (touches_getRow h).bind fun bytes _ => ?_
  cases bytes with
  | none => exact .done _ trivial
  | some bytes =>
    dsimp only
    split
    · exact .throw _
    · split
      · exact .done _ trivial
      · exact .throw _
    · exact .throw _

/-- A token row that was read, or an empty one, is valid. -/
theorem touches_tokenRow {jid : JsString} {incoming : ℤ} (h : allowed (rowKey tcToken jid))
    (hincoming : InI64 incoming) : Touches codecs digest carry allowed ValidRow (tokenRow jid incoming) := by
  refine (touches_getRow h).bind fun bytes _ => ?_
  cases bytes with
  | none =>
    refine .done _ ⟨fun b hb => ?_,hincoming,fun timestamp htimestamp => ?_⟩
    · cases hb
    · cases htimestamp
  | some bytes =>
    cases hdecode : decodeTokenRow bytes with
    | ok row =>
      dsimp only
      rw [hdecode]
      exact .done row (validRow_decodeTokenRow hdecode)
    | error error =>
      dsimp only
      rw [hdecode]
      exact .throw error

end Programs

/-- Keys without repetitions, and no other. -/
theorem distinctKeys_spec (keys : List JsString) :
    (distinctKeys keys).Nodup ∧ ∀ key, key ∈ distinctKeys keys ↔ key ∈ keys := by
  refine ⟨InsertionMap.nodup _,fun key => ?_⟩
  have hfold : ∀ (rest : List JsString) (found : InsertionMap JsString Unit),
      key ∈ (rest.foldl (fun found key => found.set key ()) found).keys ↔ key ∈ found.keys ∨ key ∈ rest := by
    intro rest
    induction rest with
    | nil => simp
    | cons other rest ih =>
      intro found
      rw [List.foldl_cons,ih,InsertionMap.mem_keys_set,List.mem_cons]
      tauto
  rw [distinctKeys,hfold]
  simp

/-- No call loads a key twice. -/
theorem loadedRows_nodup (call : AtomicCall) : ∀ part ∈ loadedRows call, part.2.Nodup := by
  intro part hpart
  cases call with
  | commitPatch name state removed added maintainIndex =>
    simp only [loadedRows,List.mem_cons,List.not_mem_nil,or_false] at hpart
    rcases hpart with rfl | rfl | rfl
    · exact List.nodup_singleton _
    · exact (distinctKeys_spec _).1
    · cases maintainIndex with
      | true => exact List.nodup_singleton _
      | false => exact List.nodup_nil
  | touchTcTokenSenderTimestamp jid timestamp =>
    simp only [loadedRows,List.mem_cons,List.not_mem_nil,or_false] at hpart
    rcases hpart with rfl | rfl
    · exact List.nodup_singleton _
    · exact List.nodup_singleton _
  | storeReceivedTcToken jid token timestamp =>
    simp only [loadedRows,List.mem_cons,List.not_mem_nil,or_false] at hpart
    rcases hpart with rfl | rfl
    · exact List.nodup_singleton _
    · exact List.nodup_singleton _

section Calls

variable (localeCompare : JsString → JsString → Bool) (others : Codecs) (digest : Digest)
variable {byteOf : Value → Option UInt8} {carry : String → Value → Value}

/-- The projection of a valid row exists and is plain. -/
theorem toLegacy_tokenRow {row : TokenRow} (h : ValidRow row) :
    ∃ value, TcToken.toLegacy (encodeTokenRow row) = .ok (some value) ∧ Plain value := by
  have hdecode := decodeTokenRow_encodeTokenRow h
  obtain ⟨token,received,sender⟩ := row
  rw [TcToken.toLegacy,hdecode]
  refine ⟨_,rfl,?_⟩
  cases sender with
  | none =>
    refine .object _ (fun member hmember => ?_) (by rfl)
    simp only [List.mem_cons,List.not_mem_nil,or_false] at hmember
    rcases hmember with rfl | rfl
    · exact .bytes _
    · exact .string _
  | some timestamp =>
    refine .object _ (fun member hmember => ?_) (by rfl)
    simp only [List.mem_cons,List.not_mem_nil,or_false] at hmember
    rcases hmember with rfl | rfl | rfl
    · exact .bytes _
    · exact .string _
    · exact .string _

/-- So a valid row can be written. -/
theorem settable_tokenRow (hcarry : Persisting byteOf carry) (jid : JsString) {row : TokenRow}
    (h : ValidRow row) : Settable (createLegacyCodecs localeCompare others) digest carry tcToken jid
      (encodeTokenRow row) := by
  have hroute : routeOf tcToken = .projected .tcToken := rfl
  obtain ⟨value,htoLegacy,hplain⟩ := toLegacy_tokenRow h
  unfold Settable
  rw [hroute]
  refine ⟨some value,htoLegacy,fun legacyValue hvalue => ?_⟩
  cases hvalue
  exact hcarry.kept digest .tcToken hplain

/-- A valid token row is written, and its jid listed. -/
theorem touches_storeTokenRow (hcarry : Persisting byteOf carry) {allowed : JsString → Prop}
    {jid : JsString} {row : TokenRow} (h : ValidRow row) (htoken : allowed (rowKey tcToken jid))
    (hindex : allowed (rowKey metaRows (ofString "tc_token_jids"))) :
    Touches (createLegacyCodecs localeCompare others) digest carry allowed (fun _ => True)
      (storeTokenRow jid row) := by
  have hsettable := settable_tokenRow localeCompare others digest hcarry jid h
  refine (touches_setRow htoken hsettable).bind fun _ _ => ?_
  refine (touches_readIndex hindex).bind fun index _ => ?_
  exact touches_setRow hindex (settable_raw rfl _ _)

/-- The legacy format can express the sync state a call writes. -/
def Projectable (codecs : Codecs) : AtomicCall → Prop
  | .commitPatch name state _ _ _ => ∃ value, codecs.toLegacy .syncVersion name state = .ok value
  | _ => True

/-- The projection of the sync state a call writes keeps its fingerprint. -/
def KeepsState (codecs : Codecs) (digest : Digest) (carry : String → Value → Value) : AtomicCall → Prop
  | .commitPatch name state _ _ _ => ∀ value,
    codecs.toLegacy .syncVersion name state = .ok (some value) → Kept digest carry .syncVersion value
  | _ => True

/-- A call throws before its transaction, or touches the rows loaded for it. -/
theorem atomicCallbacks_touches (hcarry : Persisting byteOf carry) {call : AtomicCall}
    (hproject : Projectable (createLegacyCodecs localeCompare others) call)
    (hkeeps : KeepsState (createLegacyCodecs localeCompare others) digest carry call) :
    (∃ error, ∀ (S : Type) (transaction : S → RowProgram Unit → Except StoreError Unit × S) (s : S),
      atomicCallbacks transaction call s = (.error error,s)) ∨
    ∃ program, Touches (createLegacyCodecs localeCompare others) digest carry (Loaded (loadedRows call))
        (fun _ => True) program ∧ ∀ (S : Type) (transaction : S → RowProgram Unit → Except StoreError Unit × S) (s : S),
        atomicCallbacks transaction call s = transaction s program := by
  cases call with
  | commitPatch name state removed added maintainIndex =>
    have hmac : ∀ key ∈ removed++added.map Prod.fst,
        Loaded (loadedRows (.commitPatch name state removed added maintainIndex))
          (rowKey mutationMac key) := fun key hkey =>
      ⟨_,List.mem_cons_of_mem _ List.mem_cons_self,key,(distinctKeys_spec _).2 key |>.mpr hkey,rfl⟩
    have hversion : Loaded (loadedRows (.commitPatch name state removed added maintainIndex))
        (rowKey syncVersion name) := ⟨_,List.mem_cons_self,name,List.mem_cons_self,rfl⟩
    have hstate : Settable (createLegacyCodecs localeCompare others) digest carry syncVersion name state := by
      have hroute : routeOf syncVersion = .projected .syncVersion := rfl
      obtain ⟨value,hvalue⟩ := hproject
      unfold Settable
      rw [hroute]
      exact ⟨value,hvalue,fun legacyValue heq => hkeeps legacyValue (heq ▸ hvalue)⟩
    refine .inr ⟨commitPatch name state removed added maintainIndex,?_,fun _ _ _ => rfl⟩
    refine (touches_forM fun key hkey => ?_).bind fun _ _ => ?_
    · exact touches_deleteRow (hmac key (List.mem_append_left _ hkey))
    refine (touches_forM fun pair hpair => ?_).bind fun _ _ => ?_
    · exact touches_setRow (hmac pair.1 (List.mem_append_right _ (List.mem_map_of_mem hpair)))
        (settable_raw rfl _ _)
    refine (touches_setRow hversion hstate).bind fun _ _ => ?_
    cases maintainIndex with
    | false => exact .done () trivial
    | true =>
      have hindex : Loaded (loadedRows (.commitPatch name state removed added true))
          (rowKey metaRows (ofString "mutation_mac_keys")) :=
        ⟨_,List.mem_cons_of_mem _ (List.mem_cons_of_mem _ List.mem_cons_self),_,List.mem_cons_self,rfl⟩
      refine (touches_readIndex hindex).bind fun index _ => ?_
      exact touches_setRow hindex (settable_raw rfl _ _)
  | touchTcTokenSenderTimestamp jid timestamp =>
    have htoken : Loaded (loadedRows (.touchTcTokenSenderTimestamp jid timestamp)) (rowKey tcToken jid) :=
      ⟨_,List.mem_cons_self,jid,List.mem_cons_self,rfl⟩
    have hindex : Loaded (loadedRows (.touchTcTokenSenderTimestamp jid timestamp))
        (rowKey metaRows (ofString "tc_token_jids")) :=
      ⟨_,List.mem_cons_of_mem _ List.mem_cons_self,_,List.mem_cons_self,rfl⟩
    cases hincoming : signedTimestamp timestamp with
    | error error => exact .inl ⟨error,fun _ _ _ => by simp only [atomicCallbacks,hincoming]⟩
    | ok incoming =>
      have hrange := inI64_signedTimestamp hincoming
      refine .inr ⟨touchTcTokenSenderTimestamp jid incoming,?_,
        fun _ _ _ => by simp only [atomicCallbacks,hincoming]⟩
      refine (touches_tokenRow htoken hrange).bind fun row hrow => ?_
      refine touches_storeTokenRow localeCompare others digest hcarry ?_ htoken hindex
      refine ⟨hrow.token,hrow.received,fun sent hsent => ?_⟩
      cases hsender : row.sender_timestamp with
      | none =>
        rw [hsender] at hsent
        cases hsent
        exact hrange
      | some sender =>
        rw [hsender] at hsent
        dsimp only at hsent
        split at hsent
        · cases hsent
          exact hrange
        · cases hsent
          exact hrow.sent _ hsender
  | storeReceivedTcToken jid token timestamp =>
    have htoken : Loaded (loadedRows (.storeReceivedTcToken jid token timestamp)) (rowKey tcToken jid) :=
      ⟨_,List.mem_cons_self,jid,List.mem_cons_self,rfl⟩
    have hindex : Loaded (loadedRows (.storeReceivedTcToken jid token timestamp))
        (rowKey metaRows (ofString "tc_token_jids")) :=
      ⟨_,List.mem_cons_of_mem _ List.mem_cons_self,_,List.mem_cons_self,rfl⟩
    cases hincoming : signedTimestamp timestamp with
    | error error => exact .inl ⟨error,fun _ _ _ => by simp only [atomicCallbacks,hincoming]⟩
    | ok incoming =>
      have hrange := inI64_signedTimestamp hincoming
      refine .inr ⟨storeReceivedTcToken jid token incoming,?_,
        fun _ _ _ => by simp only [atomicCallbacks,hincoming]⟩
      refine (touches_tokenRow htoken hrange).bind fun row hrow => ?_
      split
      · refine touches_storeTokenRow localeCompare others digest hcarry ?_ htoken hindex
        refine ⟨fun b hb => ?_,hrange,hrow.sent⟩
        obtain ⟨u,_,rfl⟩ := List.mem_map.mp hb
        have hbound := UInt8.toNat_lt u
        omega
      · exact touches_storeTokenRow localeCompare others digest hcarry hrow htoken hindex

/-- Outcomes of a sequence of atomic calls, and the store after it. -/
def runAtomicCalls {S : Type} (call : AtomicCall → S → Except StoreError Unit × S) :
    List AtomicCall → S → List (Except StoreError Unit) × S
  | [],s => ([],s)
  | next::calls,s =>
    let outcome := call next s
    let rest := runAtomicCalls call calls outcome.2
    (outcome.1::rest.1,rest.2)

/-- The adapter reads the rows of the memory store. -/
def SameRows (codecs : Codecs) (digest : Digest) (s : KeyStore) (stores : MemoryStores) : Prop :=
  ∃ rows : AtomicRows Bytes, Agrees stores rows ∧ Reads codecs digest s rows.get

/-- Both stores answer a call alike and stay alike. -/
theorem SameRows.call {s : KeyStore} {stores : MemoryStores}
    (h : SameRows (createLegacyCodecs localeCompare others) digest s stores)
    (hcarry : Persisting byteOf carry) {call : AtomicCall}
    (hproject : Projectable (createLegacyCodecs localeCompare others) call)
    (hkeeps : KeepsState (createLegacyCodecs localeCompare others) digest carry call) :
    (legacyCall (createLegacyCodecs localeCompare others) digest carry call s).1 =
      (atomicCallbacks memoryTransaction call stores).1 ∧ SameRows (createLegacyCodecs localeCompare others) digest
      (legacyCall (createLegacyCodecs localeCompare others) digest carry call s).2
      (atomicCallbacks memoryTransaction call stores).2 := by
  have hpass : Passthrough (createLegacyCodecs localeCompare others) := fun _ => ⟨rfl,rfl⟩
  obtain ⟨rows,hagrees,hreads⟩ := h
  unfold legacyCall
  rcases atomicCallbacks_touches localeCompare others digest hcarry hproject hkeeps with
    ⟨error,hcall⟩ | ⟨program,htouches,hcall⟩
  · rw [hcall,hcall]
    exact ⟨rfl,rows,hagrees,hreads⟩
  · rw [hcall,hcall]
    rcases atomic_reads digest carry hpass hcarry.bytes hreads (loadedRows_nodup call) htouches with
      ⟨error,hrows,hlegacy⟩ | ⟨last,lastRows,hrows,hlegacy,hlast⟩
    · rcases memoryTransaction_cases hagrees program with
        ⟨other,hother,hmemory⟩ | ⟨_,_,hother,_,_⟩
      · rw [hrows] at hother
        cases hother
        rw [hlegacy,hmemory]
        exact ⟨rfl,rows,hagrees,hreads⟩
      · rw [hrows] at hother
        cases hother
    · rcases memoryTransaction_cases hagrees program with
        ⟨other,hother,_⟩ | ⟨lastStores,otherRows,hother,hmemory,hlastAgrees⟩
      · rw [hrows] at hother
        cases hother
      · rw [hrows] at hother
        cases hother
        rw [hlegacy,hmemory]
        exact ⟨rfl,lastRows,hlastAgrees,hlast⟩

/-- So do any calls. -/
theorem SameRows.run {s : KeyStore} {stores : MemoryStores}
    (h : SameRows (createLegacyCodecs localeCompare others) digest s stores)
    (hcarry : Persisting byteOf carry) {calls : List AtomicCall}
    (hproject : ∀ call ∈ calls, Projectable (createLegacyCodecs localeCompare others) call)
    (hkeeps : ∀ call ∈ calls, KeepsState (createLegacyCodecs localeCompare others) digest carry call) :
    (runAtomicCalls (legacyCall (createLegacyCodecs localeCompare others) digest carry) calls s).1 =
      (runAtomicCalls (atomicCallbacks memoryTransaction) calls stores).1 ∧
    SameRows (createLegacyCodecs localeCompare others) digest
      (runAtomicCalls (legacyCall (createLegacyCodecs localeCompare others) digest carry) calls s).2
      (runAtomicCalls (atomicCallbacks memoryTransaction) calls stores).2 := by
  induction calls generalizing s stores with
  | nil => exact ⟨rfl,h⟩
  | cons call rest ih =>
    have hcall := h.call localeCompare others digest hcarry (hproject call List.mem_cons_self)
      (hkeeps call List.mem_cons_self)
    have hrest := ih hcall.2 (fun other hother => hproject other (List.mem_cons_of_mem _ hother))
      fun other hother => hkeeps other (List.mem_cons_of_mem _ hother)
    rw [runAtomicCalls,runAtomicCalls]
    dsimp only
    rw [hcall.1,hrest.1]
    exact ⟨rfl,hrest.2⟩

/-- The key store holds no rows of the four namespaces. -/
def NoRows (s : KeyStore) : Prop :=
  ∀ (store : AtomicNamespace) type key, type ∈ ownedTypes (routeOf store) → s.rows type key = none

/-- Then the adapter reads none. -/
theorem NoRows.reads {codecs : Codecs} {digest : Digest} {s : KeyStore} (h : NoRows s) :
    Reads codecs digest s fun _ => none := by
  intro store key
  have hrows := h store
  unfold Shows
  cases hroute : routeOf store with
  | projected projected =>
    rw [hroute] at hrows
    have hnative := hrows projected.nativeType key List.mem_cons_self
    have hlegacy := hrows projected.legacyType key (List.mem_cons_of_mem _ List.mem_cons_self)
    change Settled codecs digest projected s.rows key key none
    unfold Settled importKey importLegacy LegacyRows.read
    rw [hnative,hlegacy]
    rfl
  | raw type =>
    rw [hroute] at hrows
    exact hrows type key List.mem_cons_self

/-- Two runs are alike: one gave the results of the other, and their stores
hold the same rows. -/
structure Alike (codecs : Codecs) (digest : Digest) (carry : String → Value → Value)
    (legacy : List (Except StoreError Unit) × KeyStore)
    (memory : List (Except StoreError Unit) × MemoryStores) : Prop where
  /-- Each call returns or throws the same in both. -/
  outcomes : legacy.1 = memory.1
  /-- A row reads the same from both, and reading writes nothing. -/
  reads : ∀ (store : AtomicNamespace) key, legacyGet codecs digest carry store key legacy.2 =
    (.ok (memoryGet memory.2 store key),legacy.2)
  /-- So do several rows. -/
  batches : ∀ (store : AtomicNamespace) requested, requested.Nodup →
    adapterGetMany codecs digest carry store requested legacy.2 =
      .ok (memoryGetMany memory.2 store requested,legacy.2)
  /-- A further call that throws changes neither store. -/
  rejected : ∀ call error,
    ((legacyCall codecs digest carry call legacy.2).1 = .error error →
      (legacyCall codecs digest carry call legacy.2).2 = legacy.2) ∧
    ((atomicCallbacks memoryTransaction call memory.2).1 = .error error →
      (atomicCallbacks memoryTransaction call memory.2).2 = memory.2)

/-- A call that throws leaves the rows of the key store. -/
theorem legacyCall_error {codecs : Codecs} {digest : Digest} {carry : String → Value → Value}
    {call : AtomicCall} {s : KeyStore} {error : StoreError}
    (h : (legacyCall codecs digest carry call s).1 = .error error) : (legacyCall codecs digest carry call s).2 = s := by
  unfold legacyCall at h ⊢
  rcases atomicCallbacks_cases call with ⟨program,hcall⟩ | ⟨thrown,hcall⟩
  · rw [hcall] at h ⊢
    unfold atomic at h ⊢
    dsimp only at h ⊢
    split at h
    · cases h
    · rfl
  · rw [hcall]

/-- A call that throws leaves the maps of the memory store. -/
theorem memoryCall_error {call : AtomicCall} {stores : MemoryStores} {error : StoreError}
    (h : (atomicCallbacks memoryTransaction call stores).1 = .error error) :
    (atomicCallbacks memoryTransaction call stores).2 = stores := by
  rcases atomicCallbacks_cases call with ⟨program,hcall⟩ | ⟨thrown,hcall⟩
  · rw [hcall] at h ⊢
    unfold memoryTransaction at h ⊢
    split at h
    · cases h
    · rfl
  · rw [hcall]

/-- From stores without rows, any atomic calls whose sync states the legacy
format can express, and whose projections keep their fingerprint in the key
store, give the same outcomes and the same rows through the adapter as on the
memory store; a call that throws changes neither. -/
theorem legacy_and_memory_agree (start : KeyStore) (calls : List AtomicCall)
    (hcarry : Persisting byteOf carry) (hstart : NoRows start)
    (hproject : ∀ call ∈ calls, Projectable (createLegacyCodecs localeCompare others) call)
    (hkeeps : ∀ call ∈ calls, KeepsState (createLegacyCodecs localeCompare others) digest carry call) :
    Alike (createLegacyCodecs localeCompare others) digest carry
      (runAtomicCalls (legacyCall (createLegacyCodecs localeCompare others) digest carry) calls start)
      (runAtomicCalls (atomicCallbacks memoryTransaction) calls InsertionMap.empty) := by
  have hpass : Passthrough (createLegacyCodecs localeCompare others) := fun _ => ⟨rfl,rfl⟩
  have hempty : SameRows (createLegacyCodecs localeCompare others) digest start InsertionMap.empty :=
    ⟨InsertionMap.empty,agrees_empty,hstart.reads⟩
  obtain ⟨houtcomes,rows,hagrees,hreads⟩ :=
    hempty.run localeCompare others digest hcarry hproject hkeeps
  have hbatch : ∀ (store : AtomicNamespace) (requested : List JsString), requested.Nodup →
      adapterGetMany (createLegacyCodecs localeCompare others) digest carry store requested _ =
        .ok (present rows.get store requested,_) :=
    fun store _ hnodup => adapterGetMany_reads carry hpass hreads store hnodup
  refine ⟨houtcomes,fun store key => ?_,fun store requested hnodup => ?_,
    fun call error => ⟨legacyCall_error,memoryCall_error⟩⟩
  · unfold legacyGet
    rw [hbatch store [key] (List.nodup_singleton key),hagrees.get]
    dsimp only
    rw [present,List.filterMap_cons]
    cases rows.get (rowKey store key) with
    | none => rfl
    | some value => rfl
  · rw [hbatch store requested hnodup,hagrees.getMany]
    rfl

/-- A sync state with a MAC row, and a token. -/
theorem legacy_and_memory_agree_patch :
    Alike sampleCodecs leafDigest sampleCarry
      (runAtomicCalls (legacyCall sampleCodecs leafDigest sampleCarry)
        [.commitPatch regular (syncState "1") [] [(regular,[7])] true,
          .storeReceivedTcToken regular [1,2] [53]] emptyStore)
      (runAtomicCalls (atomicCallbacks memoryTransaction)
        [.commitPatch regular (syncState "1") [] [(regular,[7])] true,
          .storeReceivedTcToken regular [1,2] [53]] InsertionMap.empty) := by
  have hprojects : (sampleCodecs.toLegacy .syncVersion regular (syncState "1")).isOk = true := by
    decide +kernel
  have hkept : keepsEntry sampleCodecs leafDigest sampleCarry .syncVersion (regular,syncState "1") = true := by
    decide +kernel
  have hkeeps := (keepsEntry_iff sampleCodecs leafDigest sampleCarry).mp hkept
  have hpersisting : Persisting (fun _ => some 0) sampleCarry := fun _ _ => .inr rfl
  have hcodecs : createLegacyCodecs (fun _ _ => true) nativeOnlyCodecs = sampleCodecs := rfl
  have hagree := fun calls => legacy_and_memory_agree (fun _ _ => true) nativeOnlyCodecs leafDigest
    emptyStore calls hpersisting fun _ _ _ _ => rfl
  rw [hcodecs] at hagree
  refine hagree _ (fun call hcall => ?_) fun call hcall => ?_
  · simp only [List.mem_cons,List.not_mem_nil,or_false] at hcall
    rcases hcall with rfl | rfl
    · cases hvalue : sampleCodecs.toLegacy .syncVersion regular (syncState "1") with
      | ok value => exact ⟨value,hvalue⟩
      | error error =>
        rw [hvalue] at hprojects
        cases hprojects
    · exact True.intro
  · simp only [List.mem_cons,List.not_mem_nil,or_false] at hcall
    rcases hcall with rfl | rfl
    · exact hkeeps
    · exact True.intro

/-- A sync state whose version is negative zero reads changed through the
adapter, and as written from the memory store. -/
theorem legacy_and_memory_differ :
    (runAtomicCalls (legacyCall sampleCodecs leafDigest sampleCarry)
      [.commitPatch regular (syncState "-0") [] [] false] emptyStore).1 = [.ok ()] ∧
    (legacyGet sampleCodecs leafDigest sampleCarry syncVersion regular
      (runAtomicCalls (legacyCall sampleCodecs leafDigest sampleCarry)
        [.commitPatch regular (syncState "-0") [] [] false] emptyStore).2).1 = .ok (some (syncState "0")) ∧
    memoryGet (runAtomicCalls (atomicCallbacks memoryTransaction)
      [.commitPatch regular (syncState "-0") [] [] false] InsertionMap.empty).2 syncVersion regular =
        some (syncState "-0") ∧ syncState "0" ≠ syncState "-0" :=
  ⟨by decide +kernel,ok_of_toOption (by decide +kernel),by decide +kernel,by decide⟩

end Calls

end Baileyrs.LegacyProjection
