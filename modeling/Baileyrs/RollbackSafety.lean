import Baileyrs.SnapshotRollback

/-!
# Safety of the offline rollback

Whatever fails and wherever the process crashes, a proof in the folder speaks of the
snapshot committed last, and the record files are the rows of that snapshot as long as
the proof is there. An export that resolves therefore leaves the rows of the snapshot
committed last and its archive; one that does not leaves the snapshot as it was, or has
archived it already.
-/

namespace Baileyrs.SnapshotRollback

open JsString AtomicStore SnapshotRows SnapshotFolder RollbackProof CrashPrograms Program
open SnapshotLayout

variable {layout : SnapshotLayout} {digest : Bytes → JsString} {w w' : World}

/-- The record files are the rows. -/
def Exact (layout : SnapshotLayout) (rows : AtomicRows Bytes) (w : World) : Prop :=
  ∀ name value, layout.isRecordFile name = true →
    (w.files.get name = some value ↔
      ∃ store id, layout.recordFile store id = .ok (some name) ∧
        rows.get (rowKey store id) = some value)

/-- The export of the snapshot committed last is complete: the record files are its rows,
and it is archived with a proof. -/
def Exported (layout : SnapshotLayout) (digest : Bytes → JsString) (w : World) : Prop :=
  ∃ bytes rows proof uuid archived,
    w.published layout.snapshotName = some bytes ∧
    readSnapshot layout.namespaces bytes = .ok rows ∧
    Exact layout rows w ∧
    w.files.get layout.snapshotName = none ∧
    w.files.get layout.proofName = some proof ∧
    readProof layout.snapshotName proof = some (layout.archive uuid,digest archived) ∧
    w.files.get (layout.archive uuid) = some archived ∧
    digest archived = digest bytes ∧
    (w.lost = false → archived = bytes)

/-- What a proof in the folder says. -/
def Proven (layout : SnapshotLayout) (digest : Bytes → JsString) (w : World) (proof : Bytes) :
    Prop :=
  ∃ bytes rows uuid,
    w.published layout.snapshotName = some bytes ∧
    readSnapshot layout.namespaces bytes = .ok rows ∧
    Exact layout rows w ∧
    proof = proofBytes (layout.archive uuid) (digest bytes) ∧
    (w.files.get layout.snapshotName = none → w.lost = false →
      w.files.get (layout.archive uuid) = some bytes)

/-- What holds of the folder between all steps. -/
structure Certified (layout : SnapshotLayout) (digest : Bytes → JsString) (w : World) : Prop where
  /-- A snapshot is the one committed last. -/
  present : ∀ bytes, w.files.get layout.snapshotName = some bytes →
    w.published layout.snapshotName = some bytes
  /-- A proof speaks of it. -/
  proven : ∀ proof, w.files.get layout.proofName = some proof → Proven layout digest w proof

/-- Names an export depends on. -/
def Watched (layout : SnapshotLayout) (name : JsString) : Prop :=
  layout.isRecordFile name = true ∨ name = layout.snapshotName ∨ name = layout.proofName ∨
    ∃ uuid, name = layout.archive uuid

theorem snapshotName_head (layout : SnapshotLayout) (rest : JsString) : layout.snapshotName ≠ unit '.'::rest := by
  rcases layout.visible with ⟨u,tail,heq,hu⟩
  rw [heq]
  intro h
  exact hu (List.cons.inj h).1

theorem archive_head (layout : SnapshotLayout) (uuid : Uuid) (rest : JsString) :
    layout.archive uuid ≠ unit '.'::rest := by
  rcases layout.visible with ⟨u,tail,heq,hu⟩
  rw [archive,archiveName,archiveStart,heq]
  intro h
  exact hu (List.cons.inj h).1

theorem archive_ne_snapshot (layout : SnapshotLayout) (uuid : Uuid) : layout.archive uuid ≠ layout.snapshotName := by
  intro h
  have hlength := congrArg List.length h
  rw [archive,archiveName,archiveStart,List.length_append,List.length_append] at hlength
  have hstart : (ofString ".rollback-").length = 10 := rfl
  omega

theorem proof_ne_snapshot (layout : SnapshotLayout) : layout.proofName ≠ layout.snapshotName :=
  fun h => snapshotName_head layout _ h.symm

theorem archive_ne_proof (layout : SnapshotLayout) (uuid : Uuid) :
    layout.archive uuid ≠ layout.proofName := archive_head layout uuid _

/-- Names with a leading dot are no record files. -/
theorem hidden_not_record (layout : SnapshotLayout) (rest : JsString) :
    layout.isRecordFile (unit '.'::rest) = false := by
  refine layout.reserved _ ?_
  rw [isReserved]
  simp

/-- Nor are names that start like the snapshot. -/
theorem beside_not_record (layout : SnapshotLayout) (rest : JsString) :
    layout.isRecordFile (layout.snapshotName++rest) = false := by
  refine layout.reserved _ ?_
  rw [isReserved,List.isPrefixOf_iff_prefix.mpr (List.prefix_append _ _)]
  rfl

theorem snapshot_not_record (layout : SnapshotLayout) : layout.isRecordFile layout.snapshotName = false := by
  have h := beside_not_record layout []
  rw [List.append_nil] at h
  exact h

theorem archive_not_record (layout : SnapshotLayout) (uuid : Uuid) :
    layout.isRecordFile (layout.archive uuid) = false := by
  rw [archive,archiveName,archiveStart,List.append_assoc]
  exact beside_not_record layout _

/-- A name with a leading dot is watched only if it is the proof. -/
theorem hidden_unwatched {rest : JsString} (hne : unit '.'::rest ≠ layout.proofName) :
    ¬Watched layout (unit '.'::rest) := by
  intro h
  rcases h with hrecord | hsnapshot | hproof | ⟨uuid,harchive⟩
  · rw [hidden_not_record] at hrecord
    cases hrecord
  · exact snapshotName_head layout rest hsnapshot.symm
  · exact hne hproof
  · exact archive_head layout uuid rest harchive.symm

theorem lockName_unwatched (layout : SnapshotLayout) : ¬Watched layout layout.lockName := by
  refine hidden_unwatched ?_
  intro h
  have htail := List.append_cancel_left (List.cons.inj h).2
  revert htail
  decide

theorem rollbackTmp_unwatched (layout : SnapshotLayout) (uuid : Uuid) : ¬Watched layout (rollbackTmp uuid) := by
  have hform : rollbackTmp uuid = unit '.'::(ofString "rollback-"++(uuid.1++ofString ".tmp")) := rfl
  rw [hform]
  refine hidden_unwatched ?_
  intro h
  have hlast := congrArg List.getLast? h
  have htmp : (unit '.'::(ofString "rollback-"++(uuid.1++ofString ".tmp"))).getLast? =
      some (unit 'p') := by
    rw [← List.append_assoc,← List.cons_append,List.getLast?_append]
    rfl
  have hproof : layout.proofName.getLast? = some (unit 'n') := by
    rw [proofName,rollbackProofName,← List.cons_append,List.getLast?_append]
    rfl
  rw [htmp,hproof] at hlast
  revert hlast
  decide

theorem snapshotTmp_unwatched (layout : SnapshotLayout) (uuid : Uuid) : ¬Watched layout (layout.snapshotTmp uuid) := by
  intro h
  rcases h with hrecord | hsnapshot | hproof | ⟨other,harchive⟩
  · rw [snapshotTmp,beside_not_record] at hrecord
    cases hrecord
  · have hlength := congrArg List.length hsnapshot
    rw [snapshotTmp,List.length_append,List.length_cons] at hlength
    omega
  · rcases layout.visible with ⟨u,tail,heq,hu⟩
    rw [snapshotTmp,heq] at hproof
    exact hu (List.cons.inj hproof).1
  · rw [snapshotTmp,archive,archiveName,archiveStart,List.append_assoc] at harchive
    have htail := List.append_cancel_left harchive
    have hrest : uuid.1++ofString ".tmp" = ofString "rollback-"++other.1 := (List.cons.inj htail).2
    have hunits := uuid.2
    cases hfirst : uuid.1 with
    | nil =>
      rw [hfirst] at hrest
      exact absurd (List.cons.inj hrest).1 (by decide)
    | cons u rest =>
      rw [hfirst] at hrest hunits
      have hu : u = unit 'r' := (List.cons.inj hrest).1
      rw [hu,List.all_cons] at hunits
      exact absurd (Bool.and_eq_true_iff.mp hunits).1 (by decide)

/-- The exported files are the record files of the rows. -/
theorem recordFiles_get {entries : List (JsString × Bytes)}
    {files last : InsertionMap JsString Bytes} (h : layout.recordFiles files entries = .ok last)
    (hkeys : ∀ pair ∈ entries, ∃ store id, pair.1 = rowKey store id) (name : JsString) (value : Bytes) :
    last.get name = some value ↔ files.get name = some value ∨ ∃ store id, (rowKey store id,value) ∈ entries ∧
        layout.recordFile store id = .ok (some name) := by
  induction entries generalizing files with
  | nil =>
    cases h
    simp
  | cons pair entries ih =>
    rcases pair with ⟨key,bytes⟩
    rcases hkeys (key,bytes) List.mem_cons_self with ⟨store,id,hkey⟩
    have hrest : ∀ pair ∈ entries, ∃ store id, pair.1 = rowKey store id :=
      fun pair hpair => hkeys pair (List.mem_cons_of_mem _ hpair)
    have hkey : key = rowKey store id := hkey
    subst hkey
    rw [recordFiles,rowNames_rowKey] at h
    dsimp only at h
    have hmem : ∀ store' id', (rowKey store' id',value) ∈ (rowKey store id,bytes)::entries ↔
        (store' = store ∧ id' = id ∧ value = bytes) ∨ (rowKey store' id',value) ∈ entries := by
      intro store' id'
      rw [List.mem_cons,Prod.mk.injEq]
      constructor
      · intro hcase
        rcases hcase with ⟨hkeys,hvalue⟩ | hlater
        · exact .inl ⟨(rowKey_inj hkeys).1,(rowKey_inj hkeys).2,hvalue⟩
        · exact .inr hlater
      · intro hcase
        rcases hcase with ⟨rfl,rfl,hvalue⟩ | hlater
        · exact .inl ⟨rfl,hvalue⟩
        · exact .inr hlater
    cases hfile : layout.recordFile store id with
    | error error =>
      rw [hfile] at h
      cases h
    | ok own =>
      rw [hfile] at h
      cases own with
      | none =>
        rw [ih h hrest]
        constructor
        · intro hcase
          rcases hcase with hold | ⟨store',id',hlater,hname⟩
          · exact .inl hold
          · exact .inr ⟨store',id',List.mem_cons_of_mem _ hlater,hname⟩
        · intro hcase
          rcases hcase with hold | ⟨store',id',hin,hname⟩
          · exact .inl hold
          · rcases (hmem store' id').mp hin with ⟨rfl,rfl,_⟩ | hlater
            · rw [hfile] at hname
              cases hname
            · exact .inr ⟨store',id',hlater,hname⟩
      | some own =>
        dsimp only at h
        split at h
        · cases h
        · rename_i hnew
          have hfree : files.get own = none := by
            simp only [Bool.or_eq_true,not_or,Bool.not_eq_true,Option.isSome_eq_false_iff,
              Option.isNone_iff_eq_none] at hnew
            exact hnew.2
          rw [ih h hrest,InsertionMap.get_set]
          constructor
          · intro hcase
            rcases hcase with hold | ⟨store',id',hlater,hname⟩
            · split at hold
              · rename_i heq
                cases hold
                rw [← heq]
                exact .inr ⟨store,id,List.mem_cons_self,hfile⟩
              · exact .inl hold
            · exact .inr ⟨store',id',List.mem_cons_of_mem _ hlater,hname⟩
          · intro hcase
            rcases hcase with hold | ⟨store',id',hin,hname⟩
            · refine .inl ?_
              split
              · rename_i heq
                rw [← heq,hfree] at hold
                cases hold
              · exact hold
            · rcases (hmem store' id').mp hin with ⟨rfl,rfl,rfl⟩ | hlater
              · rw [hfile] at hname
                cases hname
                exact .inl (if_pos rfl)
              · exact .inr ⟨store',id',hlater,hname⟩

/-- Only record files are exported. -/
theorem recordFiles_record {entries : List (JsString × Bytes)}
    {files last : InsertionMap JsString Bytes} (h : layout.recordFiles files entries = .ok last)
    (hfiles : ∀ name ∈ files.keys, layout.isRecordFile name = true) :
    ∀ name ∈ last.keys, layout.isRecordFile name = true := by
  induction entries generalizing files with
  | nil =>
    cases h
    exact hfiles
  | cons pair entries ih =>
    rcases pair with ⟨key,bytes⟩
    rw [recordFiles] at h
    split at h
    · cases h
    · split at h
      · cases h
      · exact ih h hfiles
      · split at h
        · cases h
        · rename_i own _ hnew
          refine ih h ?_
          intro name hname
          rcases InsertionMap.mem_keys_set.mp hname with rfl | hold
          · simp only [Bool.or_eq_true,not_or,Bool.not_eq_true,Bool.not_eq_false'] at hnew
            simpa using hnew.1.2
          · exact hfiles name hold

/-- The record files are the rows when they are the exported files. -/
theorem exact_iff {bytes : Bytes} {rows : AtomicRows Bytes} {files : InsertionMap JsString Bytes}
    (hrows : readSnapshot layout.namespaces bytes = .ok rows)
    (hfiles : layout.recordFiles InsertionMap.empty rows.entries = .ok files) : Exact layout rows w ↔
      ∀ name, layout.isRecordFile name = true → w.files.get name = files.get name := by
  have hkeys : ∀ pair ∈ rows.entries, ∃ store id, pair.1 = rowKey store id := by
    intro pair hpair
    have hmem : pair.1 ∈ rows.keys := List.mem_map.mpr ⟨pair,hpair,rfl⟩
    rcases canonical_of_readSnapshot hrows pair.1 hmem with ⟨store,_,id,hkey⟩
    exact ⟨store,id,hkey⟩
  have hget : ∀ name value, files.get name = some value ↔
      ∃ store id, layout.recordFile store id = .ok (some name) ∧
        rows.get (rowKey store id) = some value := by
    intro name value
    rw [recordFiles_get hfiles hkeys name value]
    constructor
    · intro hcase
      rcases hcase with hempty | ⟨store,id,hin,hname⟩
      · cases hempty
      · exact ⟨store,id,hname,InsertionMap.get_eq_some_iff.mpr hin⟩
    · intro hcase
      rcases hcase with ⟨store,id,hname,hvalue⟩
      exact .inr ⟨store,id,InsertionMap.get_eq_some_iff.mp hvalue,hname⟩
  constructor
  · intro hexact name hname
    refine Option.ext ?_
    intro value
    rw [hexact name value hname,hget name value]
  · intro hsame name value hname
    rw [hsame name hname,hget name value]

/-- The snapshot is as it was. -/
def Kept (layout : SnapshotLayout) (before w : World) : Prop :=
  w.files.get layout.snapshotName = before.files.get layout.snapshotName ∧
    w.published layout.snapshotName = before.published layout.snapshotName

/-- An export reads a snapshot that stays as it was. -/
structure Exporting (layout : SnapshotLayout) (digest : Bytes → JsString) (before : World)
    (bytes : Bytes) (w : World) : Prop where
  /-- Proofs are about the snapshot. -/
  certified : Certified layout digest w
  /-- The snapshot is as it was. -/
  kept : Kept layout before w
  /-- It was read. -/
  snapshot : w.files.get layout.snapshotName = some bytes

theorem watched_snapshot (layout : SnapshotLayout) : Watched layout layout.snapshotName :=
  .inr (.inl rfl)

theorem watched_proof (layout : SnapshotLayout) : Watched layout layout.proofName :=
  .inr (.inr (.inl rfl))

theorem watched_archive (layout : SnapshotLayout) (uuid : Uuid) :
    Watched layout (layout.archive uuid) := .inr (.inr (.inr ⟨uuid,rfl⟩))

theorem Exact.congr {rows : AtomicRows Bytes} (h : Exact layout rows w)
    (hsame : ∀ name, layout.isRecordFile name = true → w'.files.get name = w.files.get name) :
    Exact layout rows w' := by
  intro name value hname
  rw [hsame name hname]
  exact h name value hname

theorem stable_exact (rows : AtomicRows Bytes) : Stable (Watched layout) (Exact layout rows) :=
  fun _ _ hsame h => h.congr fun name hname => hsame.files name (.inl hname)

theorem stable_certified : Stable (Watched layout) (Certified layout digest) := by
  intro w w' hsame h
  have hsnapshot := hsame.files _ (watched_snapshot layout)
  have hpublished := hsame.published _ (watched_snapshot layout)
  constructor
  · intro bytes hbytes
    rw [hsnapshot] at hbytes
    rw [hpublished]
    exact h.present bytes hbytes
  · intro proof hproof
    rw [hsame.files _ (watched_proof layout)] at hproof
    rcases h.proven proof hproof with ⟨bytes,rows,uuid,hlast,hrows,hexact,htext,harchived⟩
    refine ⟨bytes,rows,uuid,hpublished.trans hlast,hrows,stable_exact rows _ _ hsame hexact,
      htext,?_⟩
    rw [hsnapshot,hsame.lost,hsame.files _ (watched_archive layout uuid)]
    exact harchived

theorem stable_kept (before : World) : Stable (Watched layout) (Kept layout before) := by
  intro w w' hsame h
  have hsnapshot := hsame.files _ (watched_snapshot layout)
  have hpublished := hsame.published _ (watched_snapshot layout)
  exact ⟨hsnapshot.trans h.1,hpublished.trans h.2⟩

theorem stable_exporting (before : World) (bytes : Bytes) :
    Stable (Watched layout) (Exporting layout digest before bytes) := by
  intro w w' hsame h
  refine ⟨stable_certified w w' hsame h.certified,stable_kept before w w' hsame h.kept,?_⟩
  rw [hsame.files _ (watched_snapshot layout)]
  exact h.snapshot

/-- Without a proof only the snapshot matters. -/
theorem certified_of_unproven (hnone : w.files.get layout.proofName = none)
    (hpresent : ∀ bytes, w.files.get layout.snapshotName = some bytes →
      w.published layout.snapshotName = some bytes) : Certified layout digest w := by
  refine ⟨hpresent,?_⟩
  intro proof hproof
  rw [hnone] at hproof
  cases hproof

/-- A published snapshot is the one committed last. -/
theorem certified_published (hnone : w.files.get layout.proofName = none) (bytes : Bytes) :
    Certified layout digest (publish w layout.snapshotName bytes) ∧
      (publish w layout.snapshotName bytes).files.get layout.proofName = none := by
  have hproof : (publish w layout.snapshotName bytes).files.get layout.proofName = none := by
    have hne := (proof_ne_snapshot layout).symm
    exact (InsertionMap.get_set_ne _ _ hne).trans hnone
  refine ⟨certified_of_unproven hproof ?_,hproof⟩
  intro other hother
  have hself : (publish w layout.snapshotName bytes).files.get layout.snapshotName = some bytes :=
    InsertionMap.get_set_self _ _ _
  rw [hself] at hother
  rw [← hother]
  exact Function.update_self _ _ _

/-- Without its proof the folder certifies nothing. -/
theorem Certified.cleared (h : Certified layout digest w) : Certified layout digest (remove w layout.proofName) ∧
      (remove w layout.proofName).files.get layout.proofName = none := by
  have hproof : (remove w layout.proofName).files.get layout.proofName = none :=
    InsertionMap.get_delete_self _ _
  refine ⟨certified_of_unproven hproof ?_,hproof⟩
  intro bytes hbytes
  have hsame : (remove w layout.proofName).files.get layout.snapshotName =
      w.files.get layout.snapshotName := InsertionMap.get_delete_ne _ (proof_ne_snapshot layout)
  rw [hsame] at hbytes
  exact h.present bytes hbytes

/-- A record file written or removed as the snapshot has it changes nothing a proof says. -/
theorem Exporting.record {before : World} {bytes : Bytes} {rows : AtomicRows Bytes}
    {files : InsertionMap JsString Bytes} {name : JsString} (h : Exporting layout digest before bytes w)
    (hrows : readSnapshot layout.namespaces bytes = .ok rows)
    (hfiles : layout.recordFiles InsertionMap.empty rows.entries = .ok files) (hname : layout.isRecordFile name = true)
    (hother : ∀ other, other ≠ name → w'.files.get other = w.files.get other)
    (hpublished : w'.published layout.snapshotName = w.published layout.snapshotName)
    (hown : w'.files.get name = files.get name) : Exporting layout digest before bytes w' := by
  have hne : ∀ other, layout.isRecordFile other = false → other ≠ name := by
    intro other hfalse heq
    rw [heq,hname] at hfalse
    cases hfalse
  have hsnapshot := hother _ (hne _ (snapshot_not_record layout))
  have hproofName := hother _ (hne layout.proofName (hidden_not_record layout _))
  refine ⟨⟨?_,?_⟩,⟨hsnapshot.trans h.kept.1,hpublished.trans h.kept.2⟩,hsnapshot.trans h.snapshot⟩
  · intro other hbytes
    rw [hsnapshot] at hbytes
    rw [hpublished]
    exact h.certified.present other hbytes
  · intro proof hproof
    rw [hproofName] at hproof
    rcases h.certified.proven proof hproof with
      ⟨last,lastRows,uuid,hlast,hlastRows,hexact,htext,_⟩
    have hbytes := h.certified.present bytes h.snapshot
    rw [hlast] at hbytes
    have heq := Option.some.inj hbytes
    subst heq
    rw [hrows] at hlastRows
    have heq := Except.ok.inj hlastRows
    subst heq
    refine ⟨last,rows,uuid,hpublished.trans hlast,hrows,?_,htext,?_⟩
    · refine (exact_iff hrows hfiles).mpr ?_
      intro other hrecord
      by_cases hsame : other = name
      · rw [hsame]
        exact hown
      · rw [hother other hsame]
        exact (exact_iff hrows hfiles).mp hexact other hrecord
    · intro hnone
      rw [hsnapshot,h.snapshot] at hnone
      cases hnone

/-- A proof of exact record files is certified. -/
theorem Exporting.proved {before : World} {bytes : Bytes} {rows : AtomicRows Bytes}
    (h : Exporting layout digest before bytes w)
    (hrows : readSnapshot layout.namespaces bytes = .ok rows) (hexact : Exact layout rows w) (uuid : Uuid) :
    Exporting layout digest before bytes
      (publish w layout.proofName (proofBytes (layout.archive uuid) (digest bytes))) ∧ Exact layout rows
      (publish w layout.proofName (proofBytes (layout.archive uuid) (digest bytes))) := by
  have hfile : ∀ name, name ≠ layout.proofName → (publish w layout.proofName
      (proofBytes (layout.archive uuid) (digest bytes))).files.get name = w.files.get name :=
    fun name hne => InsertionMap.get_set_ne _ _ hne.symm
  have hpublished : (publish w layout.proofName
      (proofBytes (layout.archive uuid) (digest bytes))).published layout.snapshotName =
      w.published layout.snapshotName :=
    Function.update_of_ne (proof_ne_snapshot layout).symm _ _
  have hsnapshot := hfile _ (proof_ne_snapshot layout).symm
  have hexact' : Exact layout rows (publish w layout.proofName
      (proofBytes (layout.archive uuid) (digest bytes))) := by
    refine hexact.congr ?_
    intro name hname
    refine hfile name ?_
    intro heq
    have hrecord := hidden_not_record layout (layout.snapshotName++ofString ".rollback-proof.json")
    rw [heq] at hname
    rw [proofName,rollbackProofName,hrecord] at hname
    cases hname
  refine ⟨⟨⟨?_,?_⟩,⟨hsnapshot.trans h.kept.1,hpublished.trans h.kept.2⟩,
    hsnapshot.trans h.snapshot⟩,hexact'⟩
  · intro other hbytes
    rw [hsnapshot] at hbytes
    rw [hpublished]
    exact h.certified.present other hbytes
  · intro proof hproof
    have hself : (publish w layout.proofName
        (proofBytes (layout.archive uuid) (digest bytes))).files.get layout.proofName =
        some (proofBytes (layout.archive uuid) (digest bytes)) := InsertionMap.get_set_self _ _ _
    rw [hself] at hproof
    refine ⟨bytes,rows,uuid,hpublished.trans (h.certified.present bytes h.snapshot),hrows,hexact',
      (Option.some.inj hproof).symm,?_⟩
    intro hnone
    rw [hsnapshot,h.snapshot] at hnone
    cases hnone

/-- Archiving a snapshot with its proof completes the export. -/
theorem Exporting.archived {before : World} {bytes : Bytes} {rows : AtomicRows Bytes} {uuid : Uuid}
    (hdigest : ∀ bytes, isDigest (digest bytes) = true) (h : Exporting layout digest before bytes w)
    (hrows : readSnapshot layout.namespaces bytes = .ok rows) (hexact : Exact layout rows w)
    (hproof : w.files.get layout.proofName = some (proofBytes (layout.archive uuid) (digest bytes))) :
    Certified layout digest (publish (remove w layout.snapshotName) (layout.archive uuid) bytes) ∧
    Exported layout digest (publish (remove w layout.snapshotName) (layout.archive uuid) bytes) := by
  have hfile : ∀ name, name ≠ layout.snapshotName → name ≠ layout.archive uuid →
      (publish (remove w layout.snapshotName) (layout.archive uuid) bytes).files.get name =
        w.files.get name := by
    intro name hsnapshot harchive
    have hset := InsertionMap.get_set_ne (w.files.delete layout.snapshotName) bytes
      (Ne.symm harchive)
    exact hset.trans (InsertionMap.get_delete_ne _ (Ne.symm hsnapshot))
  have hpublished : (publish (remove w layout.snapshotName) (layout.archive uuid) bytes).published
      layout.snapshotName = some bytes :=
    (Function.update_of_ne (archive_ne_snapshot layout uuid).symm _ _).trans
      (h.certified.present bytes h.snapshot)
  have hgone : (publish (remove w layout.snapshotName) (layout.archive uuid) bytes).files.get
      layout.snapshotName = none :=
    (InsertionMap.get_set_ne _ _ (archive_ne_snapshot layout uuid)).trans
      (InsertionMap.get_delete_self _ _)
  have harchive : (publish (remove w layout.snapshotName) (layout.archive uuid) bytes).files.get
      (layout.archive uuid) = some bytes := InsertionMap.get_set_self _ _ _
  have hproof' := (hfile _ (proof_ne_snapshot layout) (archive_ne_proof layout uuid).symm).trans
    hproof
  have hexact' : Exact layout rows
      (publish (remove w layout.snapshotName) (layout.archive uuid) bytes) := by
    refine hexact.congr ?_
    intro name hname
    refine hfile name ?_ ?_
    · intro heq
      rw [heq,snapshot_not_record] at hname
      cases hname
    · intro heq
      rw [heq,archive_not_record] at hname
      cases hname
  constructor
  · refine ⟨?_,?_⟩
    · intro other hother
      rw [hgone] at hother
      cases hother
    · intro proof hother
      rw [hproof'] at hother
      exact ⟨bytes,rows,uuid,hpublished,hrows,hexact',(Option.some.inj hother).symm,
        fun _ _ => harchive⟩
  · exact ⟨bytes,rows,_,uuid,bytes,hpublished,hrows,hexact',hgone,hproof',
      readProof_proofBytes layout.plain (hdigest bytes) uuid,harchive,rfl,fun _ => rfl⟩

/-- A verified proof without a snapshot certifies a complete export. -/
theorem Certified.exported (hdigest : ∀ bytes, isDigest (digest bytes) = true)
    (h : Certified layout digest w) (hgone : w.files.get layout.snapshotName = none)
    {proof archived : Bytes} {archive : JsString} (hproof : w.files.get layout.proofName = some proof)
    (hread : readProof layout.snapshotName proof = some (archive,digest archived))
    (harchive : w.files.get archive = some archived) : Exported layout digest w := by
  rcases h.proven proof hproof with ⟨bytes,rows,uuid,hlast,hrows,hexact,rfl,hkept⟩
  have hown := readProof_proofBytes layout.plain (hdigest bytes) uuid
  change readProof layout.snapshotName (proofBytes (layout.archive uuid) (digest bytes)) =
    some (layout.archive uuid,digest bytes) at hown
  rw [hown] at hread
  have hpair := Prod.mk.inj (Option.some.inj hread)
  rw [← hpair.1] at harchive
  refine ⟨bytes,rows,_,uuid,archived,hlast,hrows,hexact,hgone,hproof,?_,harchive,hpair.2.symm,?_⟩
  · rw [hown,hpair.2]
  · intro hlost
    have hbytes := hkept hgone hlost
    rw [harchive] at hbytes
    exact Option.some.inj hbytes

variable {P Q : World → Prop}

/-- A check tells a missing file from one that is there. -/
theorem found_spec {check : Io Unit} {A : World → Prop}
    (h : Triple P check (fun _ => P) (fun error w => P w ∧ (error = .missing → A w)) P) :
    Triple P (found check) (fun present w => P w ∧ (present = false → A w)) (fun _ => P) P := by
  refine Triple.catching _ (h.bind ?_) ?_
  · intro _
    exact Triple.ret fun _ hw => ⟨hw,nofun⟩
  · intro error
    cases error with
    | missing => exact Triple.ret fun _ hw => ⟨hw.1,fun _ => hw.2 rfl⟩
    | other => exact Triple.throw fun _ hw => hw.1

theorem requireOfflineMigration_keeps (layout : SnapshotLayout) (migrate : Bool) :
    Keeps P (layout.requireOfflineMigration migrate) := by
  refine ((found_spec (access_spec layout.snapshotName)).weaken fun _ _ hw => hw.1).bind ?_
  intro migrated
  split
  · exact Keeps.ret ()
  · refine (readdir_spec.weaken fun _ _ hw => hw.1).bind ?_
    intro names
    split
    · exact Keeps.throw _
    · exact Keeps.ret ()

theorem importFiles_keeps (layout : SnapshotLayout) (rows : AtomicRows Bytes)
    (names : List JsString) : Keeps P (layout.importFiles rows names) := by
  induction names generalizing rows with
  | nil => exact Keeps.ret rows
  | cons name names ih =>
    rw [SnapshotLayout.importFiles]
    split
    · split
      · exact Keeps.throw _
      · refine (readFile_keeps name).bind ?_
        intro bytes
        exact ih _
    · exact ih rows

/-- Importing changes no file. -/
theorem importRows_keeps (layout : SnapshotLayout) (migrate : Bool) : Keeps P (layout.importRows migrate) := by
  refine (requireOfflineMigration_keeps layout migrate).bind ?_
  intro _
  refine (readdir_spec.weaken fun _ _ hw => hw.1).bind ?_
  intro names
  exact importFiles_keeps layout _ names

/-- Rows come from the snapshot, or are imported. -/
theorem readRows_spec {importRows : Io (AtomicRows Bytes)} {returns : AtomicRows Bytes → World → Prop}
    (hsnapshot : ∀ bytes rows w, P w → w.files.get layout.snapshotName = some bytes →
      readSnapshot layout.namespaces bytes = .ok rows → returns rows w)
    (himport : Triple P importRows returns (fun _ => P) P) :
    Triple P (layout.readRows importRows) returns (fun _ => P) P := by
  refine Triple.bind (show Triple P _ (fun read w => read.elim (P w) fun rows => returns rows w) _ _ from ?_) ?_
  · refine Triple.catching (fun _ => P) ?_ ?_
    · refine (readFile_found layout.snapshotName).bind ?_
      intro bytes
      split
      · rename_i rows hrows
        exact Triple.ret fun w hw => hsnapshot bytes rows w hw.1 hw.2 hrows
      · exact Triple.throw fun _ hw => hw.1
    · intro error
      cases error with
      | missing => exact Triple.ret fun _ hw => hw
      | other => exact Triple.throw fun _ hw => hw
  · intro read
    cases read with
    | some rows => exact Triple.ret fun _ hw => hw
    | none => exact himport

theorem readRows_keeps {importRows : Io (AtomicRows Bytes)} (h : Keeps P importRows) :
    Keeps P (layout.readRows importRows) := readRows_spec (fun _ _ _ hw _ _ => hw) h

/-- Clearing removes the proof, or fails with what the folder certifies. -/
theorem clearRollbackProof_spec : Triple (Certified layout digest) layout.clearRollbackProof
      (fun _ w => Certified layout digest w ∧ w.files.get layout.proofName = none)
      (fun _ => Certified layout digest) (Certified layout digest) := by
  refine Triple.bind (show Triple (Certified layout digest) _
    (fun _ w => Certified layout digest w ∧ w.files.get layout.proofName = none) _ _ from ?_) ?_
  · have hspec : Triple (Certified layout digest) (unlink layout.proofName)
        (fun _ w => Certified layout digest w ∧ w.files.get layout.proofName = none)
        (fun error w => error = .missing ∧ Certified layout digest w ∧
          w.files.get layout.proofName = none ∨ error = .other ∧ (Certified layout digest w ∨
            Certified layout digest w ∧ w.files.get layout.proofName = none))
        (Certified layout digest) :=
      unlink_spec fun w hw => hw.cleared
    refine Triple.catching _ (hspec.bind ?_) ?_
    · intro _
      exact Triple.ret fun _ hw => hw
    · intro error
      cases error with
      | missing =>
        refine Triple.ret ?_
        intro w hw
        rcases hw with ⟨_,hcertified,hnone⟩ | ⟨hother,_⟩
        · exact ⟨hcertified,hnone⟩
        · cases hother
      | other =>
        refine Triple.throw ?_
        intro w hw
        rcases hw with ⟨hmissing,_⟩ | ⟨_,hcertified | ⟨hcertified,_⟩⟩
        · cases hmissing
        · exact hcertified
        · exact hcertified
  · intro removed
    split
    · exact barrier_keeps.fails fun _ hw => hw.1
    · exact Triple.ret fun _ hw => hw

theorem stable_unproven : Stable (Watched layout)
    (fun w => Certified layout digest w ∧ w.files.get layout.proofName = none) := by
  intro w w' hsame h
  refine ⟨stable_certified w w' hsame h.1,?_⟩
  rw [hsame.files _ (watched_proof layout)]
  exact h.2

/-- A new snapshot is published without a proof. -/
theorem persist_keeps (rows : AtomicRows Bytes) : Keeps (Certified layout digest) (layout.persist rows) := by
  refine clearRollbackProof_spec.bind ?_
  intro _
  refine (randomUUID_keeps.fails fun _ hw => hw.1).bind ?_
  intro uuid
  have hreplace := @replaceFile_spec (Watched layout)
    (fun w => Certified layout digest w ∧ w.files.get layout.proofName = none)
    (fun w => Certified layout digest w ∧ w.files.get layout.proofName = none)
    layout.snapshotName (layout.snapshotTmp uuid) (snapshotBytes rows) syncDir
    (snapshotTmp_unwatched layout uuid) stable_unproven stable_unproven
    (fun w hw => certified_published hw.2 _) barrier_keeps
  exact hreplace.consequence (fun _ hw => hw) (fun _ _ hw => hw.1)
    (fun _ _ hw => hw.elim And.left And.left) (fun _ hw => hw.elim And.left And.left)

/-- Reads keep what the folder certifies. -/
theorem read_keeps (migrate : Bool) : Keeps (Certified layout digest) (layout.read migrate) := by
  refine withProcessFileLock_spec (lockName_unwatched layout) stable_certified ?_
    (fun _ hw => hw) (fun _ _ hw => hw)
  refine (readRows_keeps (importRows_keeps layout migrate)).bind ?_
  intro _
  exact Keeps.ret ()

/-- So do transactions. -/
theorem transaction_keeps (migrate : Bool) (change : AtomicRows Bytes → Except StoreError (AtomicRows Bytes × Bool)) :
    Keeps (Certified layout digest) (layout.transaction migrate change) := by
  refine withProcessFileLock_spec (lockName_unwatched layout) stable_certified ?_
    (fun _ hw => hw) (fun _ _ hw => hw)
  refine (readRows_keeps (importRows_keeps layout migrate)).bind ?_
  intro rows
  split
  · exact Keeps.throw _
  · split
    · exact persist_keeps _
    · exact Keeps.ret ()

/-- An export that is over: complete, or with the snapshot as it was. -/
def Ended (layout : SnapshotLayout) (digest : Bytes → JsString) (before w : World) : Prop :=
  Certified layout digest w ∧ (Kept layout before w ∨ Exported layout digest w)

theorem Exporting.ended {before : World} {bytes : Bytes}
    (h : Exporting layout digest before bytes w) : Ended layout digest before w :=
  ⟨h.certified,.inl h.kept⟩

/-- An exported file is replaced as a whole or not at all. -/
theorem publish_spec {name : JsString} {bytes : Bytes} (hP : Stable (Watched layout) P)
    (hQ : Stable (Watched layout) Q) (hput : ∀ w, P w → Q (SnapshotFolder.publish w name bytes)) :
    Triple P (SnapshotLayout.publish name bytes) (fun _ => Q) (fun _ w => P w ∨ Q w) (fun w => P w ∨ Q w) := by
  refine (randomUUID_keeps.fails fun _ hw => .inl hw).bind ?_
  intro uuid
  exact replaceFile_spec (rollbackTmp_unwatched layout uuid) hP hQ hput (Keeps.ret ())

section Export

variable {before : World} {bytes : Bytes} {rows : AtomicRows Bytes}
  {files : InsertionMap JsString Bytes}

/-- The files exported so far are in place. -/
structure Filled (layout : SnapshotLayout) (digest : Bytes → JsString) (before : World)
    (bytes : Bytes) (files : InsertionMap JsString Bytes) (remaining : List (JsString × Bytes))
    (w : World) : Prop where
  /-- The snapshot is there. -/
  exporting : Exporting layout digest before bytes w
  /-- The remaining files are among those to export. -/
  listed : ∀ file ∈ remaining, file ∈ files.entries
  /-- The others are in place. -/
  placed : ∀ name value, files.get name = some value →
    (name,value) ∈ remaining ∨ w.files.get name = some value

theorem exported_record (hfiles : layout.recordFiles InsertionMap.empty rows.entries = .ok files)
    {name : JsString} {value : Bytes} (hname : files.get name = some value) : layout.isRecordFile name = true := by
  refine recordFiles_record hfiles ?_ name (InsertionMap.mem_keys_iff.mpr ⟨value,hname⟩)
  intro other hother
  simp at hother

theorem stable_filled (hfiles : layout.recordFiles InsertionMap.empty rows.entries = .ok files)
    (remaining : List (JsString × Bytes)) :
    Stable (Watched layout) (Filled layout digest before bytes files remaining) := by
  intro w w' hsame h
  refine ⟨stable_exporting before bytes w w' hsame h.exporting,h.listed,?_⟩
  intro name value hname
  rw [hsame.files name (.inl (exported_record hfiles hname))]
  exact h.placed name value hname

/-- One more file is exported. -/
theorem Filled.put (hrows : readSnapshot layout.namespaces bytes = .ok rows)
    (hfiles : layout.recordFiles InsertionMap.empty rows.entries = .ok files)
    {file : JsString × Bytes} {rest : List (JsString × Bytes)}
    (h : Filled layout digest before bytes files (file::rest) w) :
    Filled layout digest before bytes files rest (SnapshotFolder.publish w file.1 file.2) := by
  have hfile : files.get file.1 = some file.2 :=
    InsertionMap.get_eq_some_iff.mpr (h.listed file List.mem_cons_self)
  have hrecord := exported_record hfiles hfile
  have hown : (SnapshotFolder.publish w file.1 file.2).files.get file.1 = some file.2 :=
    InsertionMap.get_set_self _ _ _
  have hother : ∀ other, other ≠ file.1 →
      (SnapshotFolder.publish w file.1 file.2).files.get other = w.files.get other :=
    fun other hne => InsertionMap.get_set_ne _ _ hne.symm
  have hsnapshot : layout.snapshotName ≠ file.1 := by
    intro heq
    rw [← heq,snapshot_not_record] at hrecord
    cases hrecord
  refine ⟨h.exporting.record hrows hfiles hrecord hother (Function.update_of_ne hsnapshot _ _)
    (hown.trans hfile.symm),fun other hin => h.listed other (List.mem_cons_of_mem _ hin),?_⟩
  intro name value hname
  by_cases heq : name = file.1
  · subst heq
    rw [hfile] at hname
    cases hname
    exact .inr hown
  · rcases h.placed name value hname with hin | hplaced
    · rcases List.mem_cons.mp hin with hhead | hlater
      · exact absurd (congrArg Prod.fst hhead) heq
      · exact .inl hlater
    · exact .inr ((hother name heq).trans hplaced)

/-- Every row is exported, or the snapshot stays as it was. -/
theorem publishFiles_spec (hrows : readSnapshot layout.namespaces bytes = .ok rows)
    (hfiles : layout.recordFiles InsertionMap.empty rows.entries = .ok files) :
    Triple (Exporting layout digest before bytes)
      (forEach files.entries fun file => SnapshotLayout.publish file.1 file.2)
      (fun _ => Filled layout digest before bytes files [])
      (fun _ => Exporting layout digest before bytes) (Exporting layout digest before bytes) := by
  have hloop := @Triple.forEach World Answer Failure _ (fun _ => Exporting layout digest before bytes)
    (Exporting layout digest before bytes) (fun file => SnapshotLayout.publish file.1 file.2)
    (Filled layout digest before bytes files) ?_ files.entries
  · refine hloop.strengthen ?_
    intro w hw
    exact ⟨hw,fun _ hin => hin,
      fun name value hname => .inl (InsertionMap.get_eq_some_iff.mp hname)⟩
  · intro file rest
    refine (publish_spec (stable_filled hfiles (file::rest)) (stable_filled hfiles rest)
      (fun w hw => hw.put hrows hfiles)).fails ?_ ?_
    · intro _ w hw
      exact hw.elim Filled.exporting Filled.exporting
    · intro w hw
      exact hw.elim Filled.exporting Filled.exporting

/-- Other record files are only among the remaining ones. -/
structure Pruned (layout : SnapshotLayout) (digest : Bytes → JsString) (before : World)
    (bytes : Bytes) (files : InsertionMap JsString Bytes) (remaining : List JsString) (w : World) :
    Prop where
  /-- The exported files are in place. -/
  filled : Filled layout digest before bytes files [] w
  /-- The others remain to be removed. -/
  others : ∀ name, layout.isRecordFile name = true → files.get name = none →
    w.files.get name ≠ none → name ∈ remaining

theorem Pruned.exact (hrows : readSnapshot layout.namespaces bytes = .ok rows)
    (hfiles : layout.recordFiles InsertionMap.empty rows.entries = .ok files)
    (h : Pruned layout digest before bytes files [] w) : Exact layout rows w := by
  refine (exact_iff hrows hfiles).mpr ?_
  intro name hname
  cases hfile : files.get name with
  | none =>
    by_contra hsome
    have hin := h.others name hname hfile hsome
    cases hin
  | some value =>
    rcases h.filled.placed name value hfile with hin | hplaced
    · cases hin
    · exact hplaced

/-- A record file that is not exported is removed. -/
theorem Pruned.removed (hrows : readSnapshot layout.namespaces bytes = .ok rows)
    (hfiles : layout.recordFiles InsertionMap.empty rows.entries = .ok files)
    {name : JsString} {rest : List JsString} (hname : layout.isRecordFile name = true)
    (hnone : files.get name = none) (h : Pruned layout digest before bytes files (name::rest) w) :
    Pruned layout digest before bytes files rest (remove w name) := by
  have hown : (remove w name).files.get name = none := InsertionMap.get_delete_self _ _
  have hother : ∀ other, other ≠ name → (remove w name).files.get other = w.files.get other :=
    fun other hne => InsertionMap.get_delete_ne _ hne.symm
  refine ⟨⟨h.filled.exporting.record hrows hfiles hname hother rfl (hown.trans hnone.symm),
    h.filled.listed,?_⟩,?_⟩
  · intro other value hvalue
    have hne : other ≠ name := by
      intro heq
      rw [heq,hnone] at hvalue
      cases hvalue
    rw [hother other hne]
    exact h.filled.placed other value hvalue
  · intro other hrecord hfree hpresent
    by_cases heq : other = name
    · rw [heq,hown] at hpresent
      exact absurd rfl hpresent
    · rw [hother other heq] at hpresent
      rcases List.mem_cons.mp (h.others other hrecord hfree hpresent) with hhead | hlater
      · exact absurd hhead heq
      · exact hlater

/-- Every other record file is removed, or the snapshot stays as it was. -/
theorem removeOthers_spec (hrows : readSnapshot layout.namespaces bytes = .ok rows)
    (hfiles : layout.recordFiles InsertionMap.empty rows.entries = .ok files) (names : List JsString) :
    Triple (Pruned layout digest before bytes files names) (forEach names fun name =>
        if layout.isRecordFile name && (files.get name).isNone then unlink name else ret ())
      (fun _ => Pruned layout digest before bytes files [])
      (fun _ => Exporting layout digest before bytes) (Exporting layout digest before bytes) := by
  refine Triple.forEach (Pruned layout digest before bytes files) ?_ names
  intro name rest
  split
  · rename_i hother
    have hparts := Bool.and_eq_true_iff.mp hother
    have hnone : files.get name = none := Option.isNone_iff_eq_none.mp hparts.2
    have hspec : Triple (Pruned layout digest before bytes files (name::rest)) (unlink name)
        (fun _ => Pruned layout digest before bytes files rest)
        (fun error w => error = .missing ∧
          Pruned layout digest before bytes files (name::rest) w ∧ w.files.get name = none ∨
          error = .other ∧ (Pruned layout digest before bytes files (name::rest) w ∨
            Pruned layout digest before bytes files rest w))
        (Pruned layout digest before bytes files (name::rest)) :=
      unlink_spec fun w hw => hw.removed hrows hfiles hparts.1 hnone
    refine hspec.fails ?_ ?_
    · intro error w hw
      rcases hw with ⟨_,hw,_⟩ | ⟨_,hw | hw⟩
      · exact hw.filled.exporting
      · exact hw.filled.exporting
      · exact hw.filled.exporting
    · intro w hw
      exact hw.filled.exporting
  · rename_i hskip
    refine Triple.ret ?_
    intro w hw
    refine ⟨hw.filled,?_⟩
    intro other hrecord hfree hpresent
    rcases List.mem_cons.mp (hw.others other hrecord hfree hpresent) with rfl | hlater
    · rw [hrecord,hfree] at hskip
      exact absurd rfl hskip
    · exact hlater

/-- The record files are the rows of the snapshot. -/
def Copied (layout : SnapshotLayout) (digest : Bytes → JsString) (before : World) (bytes : Bytes)
    (rows : AtomicRows Bytes) (w : World) : Prop :=
  Exporting layout digest before bytes w ∧ Exact layout rows w

/-- They are, with a proof. -/
def Proved (layout : SnapshotLayout) (digest : Bytes → JsString) (before : World) (bytes : Bytes)
    (rows : AtomicRows Bytes) (uuid : Uuid) (w : World) : Prop :=
  Copied layout digest before bytes rows w ∧
    w.files.get layout.proofName = some (proofBytes (layout.archive uuid) (digest bytes))

theorem stable_copied : Stable (Watched layout) (Copied layout digest before bytes rows) :=
  (stable_exporting before bytes).and (stable_exact rows)

theorem stable_proved (uuid : Uuid) : Stable (Watched layout) (Proved layout digest before bytes rows uuid) := by
  intro w w' hsame h
  refine ⟨stable_copied w w' hsame h.1,?_⟩
  rw [hsame.files _ (watched_proof layout)]
  exact h.2

/-- With the rows in place the proof is published. -/
theorem publishProof_spec (hrows : readSnapshot layout.namespaces bytes = .ok rows) (uuid : Uuid) :
    Triple (Copied layout digest before bytes rows)
      (SnapshotLayout.publish layout.proofName (proofBytes (layout.archive uuid) (digest bytes)))
      (fun _ => Proved layout digest before bytes rows uuid)
      (fun _ => Ended layout digest before) (Ended layout digest before) := by
  refine (publish_spec stable_copied (stable_proved uuid) ?_).fails ?_ ?_
  · intro w hw
    exact ⟨hw.1.proved hrows hw.2 uuid,InsertionMap.get_set_self _ _ _⟩
  · intro _ w hw
    rcases hw with hcopied | hproved
    · exact hcopied.1.ended
    · exact hproved.1.1.ended
  · intro w hw
    rcases hw with hcopied | hproved
    · exact hcopied.1.ended
    · exact hproved.1.1.ended

/-- With the proof in place the snapshot is archived. -/
theorem archive_spec (hdigest : ∀ bytes, isDigest (digest bytes) = true)
    (hrows : readSnapshot layout.namespaces bytes = .ok rows) (uuid : Uuid) :
    Triple (Proved layout digest before bytes rows uuid) (rename layout.snapshotName (layout.archive uuid))
      (fun _ w => Certified layout digest w ∧ Exported layout digest w)
      (fun _ => Ended layout digest before) (Ended layout digest before) := by
  have hspec : Triple (Proved layout digest before bytes rows uuid)
      (rename layout.snapshotName (layout.archive uuid))
      (fun _ w => Certified layout digest w ∧ Exported layout digest w)
      (fun _ w => Proved layout digest before bytes rows uuid w ∨
        Certified layout digest w ∧ Exported layout digest w)
      (Proved layout digest before bytes rows uuid) :=
    rename_spec (fun w hw => hw.1.1.snapshot)
      (fun w hw => hw.1.1.archived hdigest hrows hw.1.2 hw.2)
  refine hspec.fails ?_ ?_
  · intro _ w hw
    rcases hw with hproved | hdone
    · exact hproved.1.1.ended
    · exact ⟨hdone.1,.inr hdone.2⟩
  · intro w hw
    exact hw.1.1.ended

/-- An export of rows just read is complete, or ends with the snapshot as it was. -/
theorem exportRows_spec (hdigest : ∀ bytes, isDigest (digest bytes) = true)
    (hrows : readSnapshot layout.namespaces bytes = .ok rows) :
    Triple (Exporting layout digest before bytes) (layout.exportRows digest rows)
      (fun _ w => Certified layout digest w ∧ Exported layout digest w)
      (fun _ => Ended layout digest before) (Ended layout digest before) := by
  unfold exportRows
  cases hfiles : layout.recordFiles InsertionMap.empty rows.entries with
  | error error => exact Triple.throw fun w hw => hw.ended
  | ok files =>
    dsimp only
    have hended : ∀ w, Exporting layout digest before bytes w → Ended layout digest before w :=
      fun w hw => hw.ended
    refine ((publishFiles_spec hrows hfiles).fails (fun _ => hended) hended).bind ?_
    intro _
    refine (readdir_spec.fails (fun _ w hw => hended w hw.exporting)
      (fun w hw => hended w hw.exporting)).bind ?_
    intro names
    refine ((removeOthers_spec hrows hfiles names).strengthen ?_ |>.fails (fun _ => hended)
      hended).bind ?_
    · intro w hw
      refine ⟨hw.1,?_⟩
      intro name _ _ hpresent
      rw [hw.2 name,InsertionMap.mem_keys_iff]
      exact Option.ne_none_iff_exists'.mp hpresent
    intro _
    have hcopied : ∀ w, Pruned layout digest before bytes files [] w →
        Copied layout digest before bytes rows w :=
      fun w hw => ⟨hw.filled.exporting,hw.exact hrows hfiles⟩
    have hfails : ∀ w, Copied layout digest before bytes rows w → Ended layout digest before w :=
      fun w hw => hw.1.ended
    refine ((barrier_keeps.fails hfails).strengthen hcopied).bind ?_
    intro _
    refine (randomUUID_keeps.fails hfails).bind ?_
    intro uuid
    refine ((readFile_found layout.snapshotName).fails (fun _ => hfails) hfails).bind ?_
    intro read
    refine Triple.assume (read = bytes) ?_ ?_
    · intro w hw
      have hread := hw.2
      rw [hw.1.1.snapshot] at hread
      exact (Option.some.inj hread).symm
    intro hread
    subst hread
    refine ((publishProof_spec hrows uuid).strengthen fun w hw => hw.1).bind ?_
    intro _
    refine (barrier_keeps.fails fun w hw => hw.1.1.ended).bind ?_
    intro _
    refine (archive_spec hdigest hrows uuid).bind ?_
    intro _
    exact barrier_keeps.fails fun w hw => ⟨hw.1,.inr hw.2⟩

end Export

/-- What holds when an attempt starts. -/
theorem stable_before (before : World) :
    Stable (Watched layout) (fun w => Certified layout digest w ∧ Kept layout before w) :=
  stable_certified.and (stable_kept before)

/-- The folder has no snapshot to export. -/
def Gone (layout : SnapshotLayout) (digest : Bytes → JsString) (before w : World) : Prop :=
  (Certified layout digest w ∧ Kept layout before w) ∧ w.files.get layout.snapshotName = none

theorem stable_gone (before : World) : Stable (Watched layout) (Gone layout digest before) := by
  intro w w' hsame h
  refine ⟨stable_before before w w' hsame h.1,?_⟩
  rw [hsame.files _ (watched_snapshot layout)]
  exact h.2

/-- A proof that verifies without a snapshot shows a complete export. -/
theorem verifyRollbackProof_spec (hdigest : ∀ bytes, isDigest (digest bytes) = true) (before : World) :
    Triple (Gone layout digest before) (layout.verifyRollbackProof digest)
      (fun _ w => Certified layout digest w ∧ Exported layout digest w)
      (fun _ => Gone layout digest before) (Gone layout digest before) := by
  refine Triple.catching (fun _ => Gone layout digest before) ?_
    (fun _ => Triple.throw fun _ hw => hw)
  refine (readFile_found layout.proofName).bind ?_
  intro proof
  split
  · exact Triple.throw fun w hw => hw.1
  · rename_i archive sha256 hread
    refine ((readFile_found archive).fails (fun _ w hw => hw.1) (fun w hw => hw.1)).bind ?_
    intro archived
    split
    · rename_i hsame
      refine Triple.ret ?_
      intro w hw
      have hgone : Gone layout digest before w := hw.1.1
      subst hsame
      exact ⟨hgone.1.1,hgone.1.1.exported hdigest hgone.2 hw.1.2 hread hw.2⟩
    · exact Triple.throw fun w hw => hw.1.1

/-- An export resolves only when it is complete; otherwise the snapshot is as it was, or it
was archived. -/
theorem exportAuthSnapshot_spec (hdigest : ∀ bytes, isDigest (digest bytes) = true) (before : World) :
    Triple (fun w => Certified layout digest w ∧ Kept layout before w) (layout.exportAuthSnapshot digest)
      (fun _ w => Certified layout digest w ∧ Exported layout digest w)
      (fun _ => Ended layout digest before) (Ended layout digest before) := by
  have hended : ∀ w, Certified layout digest w ∧ Kept layout before w →
      Ended layout digest before w := fun w hw => ⟨hw.1,.inl hw.2⟩
  have hcheck := found_spec (access_spec (P := fun w =>
    Certified layout digest w ∧ Kept layout before w) layout.snapshotName)
  refine (hcheck.fails (fun _ => hended) hended).bind ?_
  intro present
  cases present with
  | true =>
    refine Triple.strengthen (withProcessFileLock_spec (lockName_unwatched layout)
      (stable_before before) ?_ hended (fun _ w hw => ⟨hw.1,.inr hw.2⟩)) fun w hw => hw.1
    have hread := @readRows_spec layout (fun w => Certified layout digest w ∧ Kept layout before w)
      (throw .other) (fun rows w => ∃ bytes, Exporting layout digest before bytes w ∧
        readSnapshot layout.namespaces bytes = .ok rows)
      (fun bytes rows w hw hsnapshot hrows => ⟨bytes,⟨hw.1,hw.2,hsnapshot⟩,hrows⟩)
      (Triple.throw fun _ hw => hw)
    refine (hread.fails (fun _ => hended) hended).bind ?_
    intro rows
    refine Triple.choose ?_
    intro bytes
    refine Triple.assume (readSnapshot layout.namespaces bytes = .ok rows) (fun w hw => hw.2) ?_
    intro hrows
    exact (exportRows_spec hdigest hrows).strengthen fun w hw => hw.1
  | false =>
    refine Triple.strengthen (withProcessFileLock_spec (lockName_unwatched layout)
      (stable_gone before) ?_ (fun w hw => hended w hw.1) (fun _ w hw => ⟨hw.1,.inr hw.2⟩))
      fun w hw => ⟨hw.1,hw.2 rfl⟩
    refine ((verifyRollbackProof_spec hdigest before).fails (fun _ w hw => hended w hw.1)
      (fun w hw => hended w hw.1)).bind ?_
    intro _
    exact barrier_keeps.fails fun w hw => ⟨hw.1,.inr hw.2⟩

/-- Losing the snapshot leaves what a proof says about it. -/
theorem Certified.lost (h : Certified layout digest w) :
    Certified layout digest {remove w layout.snapshotName with lost := true} := by
  have hfile : ∀ name, name ≠ layout.snapshotName →
      (remove w layout.snapshotName).files.get name = w.files.get name :=
    fun name hne => InsertionMap.get_delete_ne _ hne.symm
  constructor
  · intro bytes hbytes
    have hgone : (remove w layout.snapshotName).files.get layout.snapshotName = none :=
      InsertionMap.get_delete_self _ _
    rw [hgone] at hbytes
    cases hbytes
  · intro proof hproof
    rw [hfile _ (proof_ne_snapshot layout)] at hproof
    rcases h.proven proof hproof with ⟨bytes,rows,uuid,hlast,hrows,hexact,htext,_⟩
    refine ⟨bytes,rows,uuid,hlast,hrows,?_,htext,?_⟩
    · refine hexact.congr ?_
      intro name hname
      refine hfile name ?_
      intro heq
      rw [heq,snapshot_not_record] at hname
      cases hname
    · intro _ hlost
      cases hlost

/-- Files of others are not watched. -/
theorem elsewhere_unwatched {name : JsString}
    (hname : (isReserved layout.snapshotName name || layout.isRecordFile name) = false) :
    ¬Watched layout name := by
  have hparts := Bool.or_eq_false_iff.mp hname
  have hsnapshot : ∀ rest, name ≠ layout.snapshotName++rest := by
    intro rest heq
    have hreserved := hparts.1
    rw [heq,isReserved,List.isPrefixOf_iff_prefix.mpr (List.prefix_append _ _)] at hreserved
    cases hreserved
  intro h
  rcases h with hrecord | heq | heq | ⟨uuid,heq⟩
  · rw [hparts.2] at hrecord
    cases hrecord
  · exact hsnapshot [] (heq.trans (List.append_nil _).symm)
  · have hreserved := hparts.1
    rw [heq,proofName,rollbackProofName,isReserved] at hreserved
    simp at hreserved
  · rw [archive,archiveName,archiveStart,List.append_assoc] at heq
    exact hsnapshot _ heq

/-- Every attempt keeps what the folder certifies. -/
theorem attempt_keeps (hdigest : ∀ bytes, isDigest (digest bytes) = true) (next : Attempt) :
    Keeps (Certified layout digest) (attempt layout digest next) := by
  cases next with
  | openStore migrate => exact requireOfflineMigration_keeps layout migrate
  | read migrate => exact read_keeps migrate
  | transaction migrate change => exact transaction_keeps migrate change
  | exportAuthSnapshot =>
    have hspec := Triple.choose fun before =>
      (@exportAuthSnapshot_spec layout digest hdigest before).consequence (fun _ hw => hw)
        (fun _ _ hw => hw.1) (fun _ _ hw => hw.1) (fun _ hw => hw.1)
    exact hspec.strengthen fun w hw => ⟨w,hw,rfl,rfl⟩
  | elsewhere name contents =>
    simp only [attempt,elsewhere]
    split
    · exact Keeps.throw _
    · rename_i hname
      have hunwatched := elsewhere_unwatched (Bool.eq_false_iff.mpr hname)
      refine Keeps.perform ?_
      intro w answer hw
      cases contents with
      | none => exact stable_certified w _ (same_remove hunwatched w) hw
      | some bytes => exact stable_certified w _ (same_write hunwatched w bytes) hw
  | lose =>
    simp only [attempt,lose]
    refine Keeps.perform ?_
    intro w answer hw
    exact Certified.lost hw

/-- So do sequences of attempts, however each of them ends. -/
theorem runAttempts_certified (hdigest : ∀ bytes, isDigest (digest bytes) = true)
    (attempts : List (Attempt × List Answer)) (h : Certified layout digest w) :
    Certified layout digest (runAttempts layout digest w attempts) := by
  induction attempts generalizing w with
  | nil => exact h
  | cons pair rest ih =>
    rcases pair with ⟨next,answers⟩
    rw [runAttempts]
    refine ih ?_
    have hend := attempt_keeps hdigest next w answers h
    cases hrun : attempt layout digest next w answers with
    | returned value s left =>
      rw [hrun] at hend
      exact hend
    | thrown error s left =>
      rw [hrun] at hend
      exact hend
    | crashed s =>
      rw [hrun] at hend
      exact hend

/-- After any attempts, an export resolves only with the record files being the rows of the
snapshot committed last, which is archived with its proof; one that rejects or crashes leaves
the snapshot as it was, unless it was archived like this already. -/
theorem export_certifies_last (hdigest : ∀ bytes, isDigest (digest bytes) = true)
    (files : InsertionMap JsString Bytes) (hproof : files.get layout.proofName = none)
    (attempts : List (Attempt × List Answer)) (answers : List Answer) :
    let before := runAttempts layout digest (started files) attempts
    (layout.exportAuthSnapshot digest before answers).Holds
      (fun _ after => Exported layout digest after)
      (fun _ after => Kept layout before after ∨ Exported layout digest after)
      (fun after => Kept layout before after ∨ Exported layout digest after) := by
  intro before
  have hstarted : Certified layout digest (started files) :=
    certified_of_unproven hproof fun _ hbytes => hbytes
  have hbefore : Certified layout digest before := runAttempts_certified hdigest attempts hstarted
  have hspec := (@exportAuthSnapshot_spec layout digest hdigest before).consequence
    (fun _ hw => hw) (fun _ _ hw => hw.2) (fun _ _ hw => hw.2) (fun _ hw => hw.2)
  exact hspec before answers ⟨hbefore,rfl,rfl⟩

/-- An answer without a failure. -/
def okAnswer : Answer := ⟨.ok,⟨ofString "1b4e28ba-2fa1-41d2-883f-0016d3cca427",by decide⟩,0,[]⟩

/-- The digest of the snapshot of the row below. -/
def rowDigest (_ : Bytes) : JsString :=
  ofString "9cc7ed9942e36076b30e19141fcb76f38cb8ca1bc4fb7d7e13154e8084301d3a"

/-- A row is committed, and the process crashes in the middle of exporting it. -/
def crashedExport : List (Attempt × List Answer) :=
  [(.transaction false fun rows =>
      .ok (rows.set (rowKey (ofString "meta") (ofString "a")) [7],true),
      List.replicate 30 okAnswer),
    (.exportAuthSnapshot,List.replicate 12 okAnswer)]

theorem export_certifies_last_retried :
    ∃ outcome, Exported nativeLayout rowDigest outcome ∧
      outcome = (nativeLayout.exportAuthSnapshot rowDigest
        (runAttempts nativeLayout rowDigest (started InsertionMap.empty) crashedExport)
        (List.replicate 60 okAnswer)).state := by
  have hdigest : ∀ bytes, isDigest (rowDigest bytes) = true := by
    intro bytes
    unfold rowDigest
    decide
  have hsafe := @export_certifies_last nativeLayout rowDigest hdigest InsertionMap.empty rfl
    crashedExport (List.replicate 60 okAnswer)
  have hreturned : (nativeLayout.exportAuthSnapshot rowDigest
      (runAttempts nativeLayout rowDigest (started InsertionMap.empty) crashedExport)
      (List.replicate 60 okAnswer)).hasReturned = true := by decide +kernel
  rcases hsafe.returned hreturned with ⟨_,hexported⟩
  exact ⟨_,hexported,rfl⟩

end Baileyrs.SnapshotRollback
