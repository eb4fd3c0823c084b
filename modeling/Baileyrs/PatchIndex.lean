import Baileyrs.RowIndexes

/-!
# Sync patches and the index of their MAC rows

A patch removes MAC rows, adds others and writes the state of its collection; the
index lists the MAC rows. After any sequence of patches the index lists exactly the
rows there are, each with the bytes of the last patch that added it, and every
collection has its last state.
-/

namespace Baileyrs.AtomicStore

open JsString SnapshotRows

/-- A patch that keeps the index. -/
structure Patch where
  /-- Its collection. -/
  name : JsString
  /-- State of the collection after it. -/
  state : Bytes
  /-- Removed MAC rows. -/
  removed : List JsString
  /-- Added MAC rows. -/
  added : List (JsString × Bytes)

/-- The call that commits a patch. -/
def Patch.call (patch : Patch) : AtomicCall :=
  .commitPatch patch.name patch.state patch.removed patch.added true

/-- A patch adds a row with some bytes, and not again with others. -/
def Patch.Adds (patch : Patch) (key : JsString) (bytes : Bytes) : Prop :=
  ∃ before after, patch.added = before++(key,bytes)::after ∧ key ∉ after.map Prod.fst

/-- A patch leaves a row alone. -/
def Patch.Leaves (patch : Patch) (key : JsString) : Prop :=
  key ∉ patch.removed ∧ key ∉ patch.added.map Prod.fst

/-- An element with one property comes in a list, and all after it have another. -/
def Last {α : Type} (found later : α → Prop) (items : List α) : Prop :=
  ∃ before item after, items = before++item::after ∧ found item ∧ ∀ other ∈ after, later other

/-- The rows after some patches. -/
structure Indexed (patches : List Patch) (get : AtomicNamespace → JsString → Option Bytes) : Prop where
  /-- The index lists the keys of the MAC rows, each once. -/
  listed : ∃ keys, Lists (get metaRows (ofString "mutation_mac_keys")) keys ∧ keys.Nodup ∧
    ∀ key, key ∈ keys ↔ (get mutationMac key).isSome = true
  /-- A MAC row holds the bytes of the last patch that added it. -/
  added : ∀ key bytes, get mutationMac key = some bytes ↔
    Last (fun patch => patch.Adds key bytes) (fun patch => patch.Leaves key) patches
  /-- A collection has the state of its last patch. -/
  committed : ∀ name state, get syncVersion name = some state ↔
    Last (fun patch => patch.name = name ∧ patch.state = state) (fun patch => patch.name ≠ name) patches

/-- The last element counts, or it does not and one before it does. -/
theorem last_append {α : Type} {found later : α → Prop} {items : List α} {item : α} :
    Last found later (items++[item]) ↔ found item ∨ later item ∧ Last found later items := by
  constructor
  · rintro ⟨before,other,after,heq,hfound,hlater⟩
    rcases List.eq_nil_or_concat after with rfl | ⟨front,last,rfl⟩
    · obtain ⟨_,hlast⟩ := List.append_inj' heq rfl
      cases hlast
      exact .inl hfound
    · rw [List.concat_eq_append,← List.cons_append,← List.append_assoc] at heq
      obtain ⟨hitems,hlast⟩ := List.append_inj' heq rfl
      cases hlast
      rw [List.concat_eq_append] at hlater
      exact .inr ⟨hlater _ (List.mem_append_right _ List.mem_cons_self),before,other,front,hitems,hfound,
        fun other hother => hlater other (List.mem_append_left _ hother)⟩
  · rintro (hfound | ⟨hitem,before,other,after,rfl,hfound,hlater⟩)
    · exact ⟨items,item,[],rfl,hfound,List.forall_mem_nil _⟩
    · refine ⟨before,other,after++[item],by rw [List.append_assoc]; rfl,hfound,fun last hlast => ?_⟩
      rcases List.mem_append.mp hlast with hlast | hlast
      · exact hlater last hlast
      · exact List.mem_singleton.mp hlast ▸ hitem

/-- A row that is added has last bytes. -/
theorem Patch.adds_of_mem {patch : Patch} {key : JsString} (h : key ∈ patch.added.map Prod.fst) :
    ∃ bytes, patch.Adds key bytes := by
  have hlast : ∀ added : List (JsString × Bytes), key ∈ added.map Prod.fst →
      ∃ bytes before after, added = before++(key,bytes)::after ∧ key ∉ after.map Prod.fst := by
    intro added
    induction added with
    | nil => exact fun hmem => absurd hmem List.not_mem_nil
    | cons pair rest ih =>
      intro hmem
      by_cases hrest : key ∈ rest.map Prod.fst
      · obtain ⟨bytes,before,after,rfl,hafter⟩ := ih hrest
        exact ⟨bytes,pair::before,after,rfl,hafter⟩
      · have hpair : key = pair.1 := (List.mem_cons.mp hmem).resolve_right hrest
        exact ⟨pair.2,[],rest,by rw [hpair]; rfl,hrest⟩
  exact hlast patch.added h

section Rows

/-- Removed rows are gone. -/
theorem get_foldl_delete (keys : List JsString) (rows : AtomicRows Bytes) (store : AtomicNamespace) (name : JsString) :
    (keys.foldl (fun rows key => rows.delete (rowKey mutationMac key)) rows).get (rowKey store name) =
      if store = mutationMac ∧ name ∈ keys then none else rows.get (rowKey store name) := by
  induction keys generalizing rows with
  | nil => rw [List.foldl_nil,if_neg fun h => List.not_mem_nil h.2]
  | cons key rest ih =>
    rw [List.foldl_cons,ih,InsertionMap.get_delete]
    by_cases hrest : store = mutationMac ∧ name ∈ rest
    · rw [if_pos hrest,if_pos ⟨hrest.1,List.mem_cons_of_mem _ hrest.2⟩]
    · rw [if_neg hrest]
      by_cases hrow : store = mutationMac ∧ name = key
      · rw [if_pos (by rw [hrow.1,hrow.2]),if_pos ⟨hrow.1,hrow.2 ▸ List.mem_cons_self⟩]
      · have hne : rowKey mutationMac key ≠ rowKey store name := by
          intro heq
          obtain ⟨hstore,hkey⟩ := rowKey_inj heq
          exact hrow ⟨(Subtype.ext hstore).symm,hkey.symm⟩
        rw [if_neg hne,if_neg]
        rintro ⟨hstore,hmem⟩
        rcases List.mem_cons.mp hmem with hkey | hmem
        · exact hrow ⟨hstore,hkey⟩
        · exact hrest ⟨hstore,hmem⟩

/-- Rows that are not added keep their bytes. -/
theorem get_foldl_set_absent (added : List (JsString × Bytes)) (rows : AtomicRows Bytes)
    {store : AtomicNamespace} {name : JsString} (h : store ≠ mutationMac ∨ name ∉ added.map Prod.fst) :
    (added.foldl (fun rows pair => rows.set (rowKey mutationMac pair.1) pair.2) rows).get (rowKey store name) =
      rows.get (rowKey store name) := by
  induction added generalizing rows with
  | nil => rfl
  | cons pair rest ih =>
    have hrest : store ≠ mutationMac ∨ name ∉ rest.map Prod.fst :=
      h.imp_right fun hno hmem => hno (List.mem_cons_of_mem _ hmem)
    have hpair : mutationMac ≠ store ∨ pair.1 ≠ name :=
      h.imp Ne.symm fun hno heq => hno (heq ▸ List.mem_cons_self)
    rw [List.foldl_cons,ih _ hrest,get_rowKey_ne rows pair.2 hpair]

/-- An added row holds its last bytes. -/
theorem get_foldl_set_adds {patch : Patch} {key : JsString} {bytes : Bytes} (h : patch.Adds key bytes)
    (rows : AtomicRows Bytes) :
    (patch.added.foldl (fun rows pair => rows.set (rowKey mutationMac pair.1) pair.2) rows).get
      (rowKey mutationMac key) = some bytes := by
  obtain ⟨before,after,heq,hafter⟩ := h
  rw [heq,List.foldl_append,List.foldl_cons,get_foldl_set_absent after _ (.inr hafter),get_rowKey_self]

/-- Names left in an index after some are removed. -/
theorem mem_foldl_delete (names : List JsString) (index : InsertionMap JsString Unit) (name : JsString) :
    name ∈ (names.foldl (fun index key => index.delete key) index).keys ↔ name ∉ names ∧ name ∈ index.keys := by
  induction names generalizing index with
  | nil => simp
  | cons other rest ih =>
    rw [List.foldl_cons,ih,InsertionMap.mem_keys_delete,List.mem_cons,not_or]
    tauto

/-- Names in an index after some are added. -/
theorem mem_foldl_set (added : List (JsString × Bytes)) (index : InsertionMap JsString Unit) (name : JsString) :
    name ∈ (added.foldl (fun index pair => index.set pair.1 ()) index).keys ↔
      name ∈ added.map Prod.fst ∨ name ∈ index.keys := by
  induction added generalizing index with
  | nil => simp
  | cons pair rest ih =>
    rw [List.foldl_cons,ih,InsertionMap.mem_keys_set,List.map_cons,List.mem_cons]
    tauto

/-- Rows of a patch before its index is written. -/
def Patch.rows (patch : Patch) (rows : AtomicRows Bytes) : AtomicRows Bytes :=
  (patch.added.foldl (fun rows pair => rows.set (rowKey mutationMac pair.1) pair.2)
    (patch.removed.foldl (fun rows key => rows.delete (rowKey mutationMac key)) rows)).set
      (rowKey syncVersion patch.name) patch.state

/-- Index after a patch. -/
def Patch.index (patch : Patch) (index : InsertionMap JsString Unit) : InsertionMap JsString Unit :=
  patch.added.foldl (fun index pair => index.set pair.1 ())
    (patch.removed.foldl (fun index key => index.delete key) index)

/-- Other rows are left alone. -/
theorem Patch.rows_other (patch : Patch) (rows : AtomicRows Bytes) {store : AtomicNamespace} (name : JsString)
    (hmac : store ≠ mutationMac) (hstate : store ≠ syncVersion) :
    (patch.rows rows).get (rowKey store name) = rows.get (rowKey store name) := by
  rw [Patch.rows,get_rowKey_ne _ _ (.inl hstate.symm),get_foldl_set_absent _ _ (.inl hmac),
    get_foldl_delete,if_neg fun h => hmac h.1]

/-- MAC rows after a patch. -/
theorem Patch.rows_mac (patch : Patch) (rows : AtomicRows Bytes) (key : JsString) :
    (∀ bytes, patch.Adds key bytes → (patch.rows rows).get (rowKey mutationMac key) = some bytes) ∧
    (key ∉ patch.added.map Prod.fst → (patch.rows rows).get (rowKey mutationMac key) =
      if key ∈ patch.removed then none else rows.get (rowKey mutationMac key)) := by
  have hne : syncVersion ≠ mutationMac := namespaces_ne.1
  refine ⟨fun bytes h => ?_,fun h => ?_⟩
  · rw [Patch.rows,get_rowKey_ne _ _ (.inl hne),get_foldl_set_adds h]
  · rw [Patch.rows,get_rowKey_ne _ _ (.inl hne),get_foldl_set_absent _ _ (.inr h),get_foldl_delete]
    simp only [true_and]

/-- A patch is committed over rows whose index can be read. -/
theorem resolves_commitPatch (patch : Patch) {rows : AtomicRows Bytes} {index : InsertionMap JsString Unit}
    (h : IndexRow (rows.get (rowKey metaRows (ofString "mutation_mac_keys"))) index) :
    Resolves (commitPatch patch.name patch.state patch.removed patch.added true) rows ()
      ((patch.rows rows).set (rowKey metaRows (ofString "mutation_mac_keys")) (encodeIndex (patch.index index))) := by
  have hindex : IndexRow ((patch.rows rows).get (rowKey metaRows (ofString "mutation_mac_keys"))) index := by
    rw [Patch.rows_other patch rows _ namespaces_ne.2.2.2.2.1 namespaces_ne.2.2.2.2.2.1]
    exact h
  have hremoved := resolves_forM (fun key rows => resolves_deleteRow mutationMac key rows) patch.removed rows
  refine hremoved.bind ?_
  refine (resolves_forM (fun pair rows => resolves_setRow mutationMac pair.1 pair.2 rows) patch.added _).bind ?_
  refine (resolves_setRow syncVersion patch.name patch.state _).bind ?_
  exact (resolves_readIndex hindex).bind (resolves_setRow metaRows _ _ _)

end Rows

section Runs

/-- Reads of some rows. -/
def rowReads (rows : AtomicRows Bytes) (store : AtomicNamespace) (key : JsString) : Option Bytes :=
  rows.get (rowKey store key)

/-- The rows after some patches, with the index they hold. -/
structure Committed (patches : List Patch) (rows : AtomicRows Bytes) (index : InsertionMap JsString Unit) :
    Prop where
  /-- The index row. -/
  row : IndexRow (rows.get (rowKey metaRows (ofString "mutation_mac_keys"))) index
  /-- It lists the MAC rows. -/
  keys : ∀ key, key ∈ index.keys ↔ (rowReads rows mutationMac key).isSome = true
  /-- They hold the bytes that were added last. -/
  added : ∀ key bytes, rowReads rows mutationMac key = some bytes ↔
    Last (fun patch => patch.Adds key bytes) (fun patch => patch.Leaves key) patches
  /-- Collections have their last states. -/
  committed : ∀ name state, rowReads rows syncVersion name = some state ↔
    Last (fun patch => patch.name = name ∧ patch.state = state) (fun patch => patch.name ≠ name) patches

theorem Committed.indexed {patches : List Patch} {rows : AtomicRows Bytes} {index : InsertionMap JsString Unit}
    (h : Committed patches rows index) : Indexed patches (rowReads rows) :=
  ⟨⟨index.keys,h.row.lists,index.nodup,h.keys⟩,h.added,h.committed⟩

/-- Without patches there are no rows. -/
theorem committed_empty : Committed [] InsertionMap.empty InsertionMap.empty := by
  have hnone : ∀ store key, rowReads InsertionMap.empty store key = none := fun _ _ => rfl
  have hlast : ∀ found later : Patch → Prop, ¬Last found later [] := by
    rintro found later ⟨before,item,after,heq,_⟩
    cases before with
    | nil => cases heq
    | cons other rest => cases heq
  refine ⟨.inr ⟨rfl,rfl⟩,fun key => ?_,fun key bytes => ?_,fun name state => ?_⟩
  · rw [hnone,InsertionMap.keys_empty]
    simp
  · rw [hnone]
    exact ⟨fun h => (by cases h),fun h => absurd h (hlast _ _)⟩
  · rw [hnone]
    exact ⟨fun h => (by cases h),fun h => absurd h (hlast _ _)⟩

/-- One more patch. -/
theorem Committed.commit {patches : List Patch} {rows : AtomicRows Bytes} {index : InsertionMap JsString Unit}
    (h : Committed patches rows index) (patch : Patch) :
    Committed (patches++[patch]) ((patch.rows rows).set (rowKey metaRows (ofString "mutation_mac_keys"))
      (encodeIndex (patch.index index))) (patch.index index) := by
  have hmac : ∀ key, rowReads ((patch.rows rows).set (rowKey metaRows (ofString "mutation_mac_keys"))
      (encodeIndex (patch.index index))) mutationMac key = (patch.rows rows).get (rowKey mutationMac key) :=
    fun key => get_rowKey_ne _ _ (.inl namespaces_ne.2.2.2.2.1)
  have hstate : ∀ name, rowReads ((patch.rows rows).set (rowKey metaRows (ofString "mutation_mac_keys"))
      (encodeIndex (patch.index index))) syncVersion name = (patch.rows rows).get (rowKey syncVersion name) :=
    fun name => get_rowKey_ne _ _ (.inl namespaces_ne.2.2.2.2.2.1)
  refine ⟨.inl (get_rowKey_self _ _ _ _),fun key => ?_,fun key bytes => ?_,fun name state => ?_⟩
  · rw [hmac,Patch.index,mem_foldl_set,mem_foldl_delete,h.keys]
    by_cases hadded : key ∈ patch.added.map Prod.fst
    · obtain ⟨bytes,hbytes⟩ := patch.adds_of_mem hadded
      rw [(patch.rows_mac rows key).1 bytes hbytes]
      simp only [hadded,true_or,Option.isSome_some]
    · rw [(patch.rows_mac rows key).2 hadded]
      by_cases hremoved : key ∈ patch.removed
      · simp [hadded,hremoved]
      · simp only [hadded,false_or,hremoved,not_false_eq_true,true_and,if_false]
        rfl
  · rw [hmac,last_append,← h.added]
    by_cases hadded : key ∈ patch.added.map Prod.fst
    · obtain ⟨last,hlast⟩ := patch.adds_of_mem hadded
      rw [(patch.rows_mac rows key).1 last hlast]
      constructor
      · intro heq
        cases heq
        exact .inl hlast
      · rintro (hadds | ⟨hleaves,_⟩)
        · rw [← (patch.rows_mac rows key).1 last hlast]
          exact (patch.rows_mac rows key).1 bytes hadds
        · exact absurd hadded hleaves.2
    · have hno : ¬patch.Adds key bytes := by
        rintro ⟨before,after,heq,_⟩
        refine hadded ?_
        rw [heq,List.map_append,List.map_cons]
        exact List.mem_append_right _ List.mem_cons_self
      rw [(patch.rows_mac rows key).2 hadded]
      by_cases hremoved : key ∈ patch.removed
      · rw [if_pos hremoved]
        constructor
        · intro heq
          cases heq
        · rintro (hadds | ⟨hleaves,_⟩)
          · exact absurd hadds hno
          · exact absurd hremoved hleaves.1
      · rw [if_neg hremoved]
        exact ⟨fun heq => .inr ⟨⟨hremoved,hadded⟩,heq⟩,fun hor => (hor.resolve_left hno).2⟩
  · rw [hstate,last_append,← h.committed,Patch.rows]
    by_cases hname : patch.name = name
    · rw [hname,get_rowKey_self]
      constructor
      · intro heq
        cases heq
        exact .inl ⟨rfl,rfl⟩
      · rintro (⟨_,rfl⟩ | ⟨hne,_⟩)
        · rfl
        · exact absurd rfl hne
    · have hne : syncVersion ≠ mutationMac := namespaces_ne.1
      rw [get_rowKey_ne _ _ (.inr hname),get_foldl_set_absent _ _ (.inl hne),get_foldl_delete,
        if_neg fun hboth => hne hboth.1]
      exact ⟨fun heq => .inr ⟨hname,heq⟩,fun hor => (hor.resolve_left fun hboth => hname hboth.1).2⟩

/-- Patches are committed one after the other on the memory store. -/
theorem Committed.run {patches : List Patch} {rows : AtomicRows Bytes} {index : InsertionMap JsString Unit}
    {stores : MemoryStores} (h : Committed patches rows index) (hagrees : Agrees stores rows)
    (more : List Patch) : ∃ lastRows lastIndex, Committed (patches++more) lastRows lastIndex ∧
      Agrees (runCalls memoryCall (more.map fun patch => .atomic patch.call) stores).2 lastRows ∧
      ∀ outcome ∈ (runCalls memoryCall (more.map fun patch => .atomic patch.call) stores).1,
        outcome = .ok .undefined := by
  have hstep : ∀ {done : List Patch} {rows : AtomicRows Bytes} {index : InsertionMap JsString Unit},
      Committed done rows index → ∀ patch, ∃ last next,
        Resolves (commitPatch patch.name patch.state patch.removed patch.added true) rows () last ∧
          Committed (done++[patch]) last next :=
    fun h patch => ⟨_,_,resolves_commitPatch patch h.row,h.commit patch⟩
  exact runCalls_resolve (fun _ _ _ _ => rfl) hstep h hagrees more

/-- Starting empty, any patches are accepted, and after them the index of the memory
store lists exactly the MAC rows, these hold what was added last and every collection
has its last state; the file store answers the same, and a call that throws changes
neither. -/
theorem patches_indexed (migrate : Bool) (folder : StoreFolder) (hsnapshot : folder.snapshot = none)
    (hfiles : ∀ file ∈ folder.files, isNativeAtomicRecordFile file.1 = false) (patches : List Patch) :
    let calls := patches.map fun patch => StoreCall.atomic patch.call
    let memory := (runCalls memoryCall calls InsertionMap.empty).2
    let file := (runCalls (fileCall migrate) calls folder).2
    (∀ outcome ∈ (runCalls memoryCall calls InsertionMap.empty).1, outcome = .ok .undefined) ∧
    Indexed patches (fun store key => memoryGet memory store key) ∧
    (∀ store key, fileGet migrate file store key = .ok (memoryGet memory store key)) ∧
    ∀ call error, ((memoryCall call memory).1 = .error error → (memoryCall call memory).2 = memory) ∧
      ((fileCall migrate call file).1 = .error error → (fileCall migrate call file).2 = file) := by
  intro calls memory file
  have hstart : Corresponds migrate InsertionMap.empty folder := corresponds_empty hsnapshot hfiles
  have hrun := runCalls_agree hstart calls
  obtain ⟨lastRows,lastIndex,hlast,hagrees,houtcomes⟩ := committed_empty.run agrees_empty patches
  refine ⟨houtcomes,?_,fun store key => (hrun.2.reads store).1 key,fun call error => ?_⟩
  · have hreads : (fun (store : AtomicNamespace) key => memoryGet memory store key) = rowReads lastRows := by
      funext store key
      exact hagrees.get store key
    rw [hreads]
    exact hlast.indexed
  · have hsame := sameOutcome_call hrun.2 call
    exact ⟨fun herror => (hsame.rejected error (hsame.outcome.trans herror)).2,
      fun herror => (hsame.rejected error herror).1⟩

/-- A patch removes and adds one row. -/
theorem patches_indexed_overlapping :
    Indexed [⟨[97],[1],[[98]],[([98],[2]),([98],[3])]⟩] fun store key =>
      memoryGet (runCalls memoryCall [.atomic (.commitPatch [97] [1] [[98]] [([98],[2]),([98],[3])] true)]
        InsertionMap.empty).2 store key :=
  (patches_indexed false ⟨"",none,[]⟩ rfl (List.forall_mem_nil _)
    [⟨[97],[1],[[98]],[([98],[2]),([98],[3])]⟩]).2.1

end Runs

end Baileyrs.AtomicStore
