import Baileyrs.RollbackSafety

/-!
# Migration of an exported folder

An export leaves the record files of the native store as the rows of its snapshot, and no
snapshot. Opening the folder again with a declared migration imports these files. What it
reads is the map that was exported: a record file names one row, and no other record file
is left. An import can only fail where a step on a file does.
-/

namespace Baileyrs.SnapshotRollback

open JsString AtomicStore SnapshotRows SnapshotFolder RollbackProof CrashPrograms Program
open SnapshotLayout

/-- Open the store and read its rows. -/
def openedRows (layout : SnapshotLayout) (migrate : Bool) : Io (AtomicRows Bytes) := do
  layout.requireOfflineMigration migrate
  withProcessFileLock layout.lockName (layout.readRows (layout.importRows migrate))

section Steps

variable {good : Answer → Prop} {P : World → Prop} {name : JsString}

/-- No step fails. -/
def AllOk (good : Answer → Prop) : Prop := ∀ answer, good answer → answer.reply = .ok

/-- A failure that is not for a missing file has a step that failed. -/
def Blamed (good : Answer → Prop) (error : Failure) : Prop := error = .other ∧ ¬AllOk good

theorem blamed_of_failed {answer : Answer} (hgood : good answer) (h : answer.reply ≠ .ok) :
    Blamed good .other := ⟨rfl,fun hall => h (hall answer hgood)⟩

theorem readFile_on (name : JsString) :
    TripleOn good P (readFile name) (fun bytes w => P w ∧ w.files.get name = some bytes) (fun error w => P w ∧
        (error = .missing ∧ w.files.get name = none ∨ Blamed good error)) := by
  refine TripleOn.perform ?_ ?_
  · intro w answer bytes hw _ hret
    cases hreply : answer.reply <;> cases hfile : w.files.get name <;>
      simp only [hreply,hfile] at hret ⊢ <;> cases hret
    exact ⟨hw,rfl⟩
  · intro w answer error hw hgood hthrow
    have hblamed := @blamed_of_failed good answer hgood
    cases hreply : answer.reply <;> cases hfile : w.files.get name <;>
      simp only [hreply,hfile] at hthrow hblamed ⊢ <;> cases hthrow
    · exact ⟨hw,.inl ⟨rfl,trivial⟩⟩
    all_goals exact ⟨hw,.inr (hblamed (by decide))⟩

theorem barrier_on : TripleOn good P barrier (fun _ => P) (fun error w => P w ∧ Blamed good error) := by
  refine TripleOn.perform ?_ ?_
  · intro w answer _ hw _ hret
    cases hreply : answer.reply <;> simp only [hreply] at hret ⊢ <;> cases hret
    exact hw
  · intro w answer error hw hgood hthrow
    have hblamed := @blamed_of_failed good answer hgood
    cases hreply : answer.reply <;> simp only [hreply] at hthrow hblamed ⊢ <;> cases hthrow
    all_goals exact ⟨hw,hblamed (by decide)⟩

theorem readdir_on : TripleOn good P readdir (fun names w => P w ∧ names.Perm w.files.keys)
      (fun error w => P w ∧ Blamed good error) := by
  refine TripleOn.perform ?_ ?_
  · intro w answer names hw _ hret
    cases hreply : answer.reply <;> simp only [hreply] at hret ⊢ <;> cases hret
    refine ⟨hw,?_⟩
    split
    · rename_i hperm
      exact List.isPerm_iff.mp hperm
    · exact List.Perm.refl _
  · intro w answer error hw hgood hthrow
    have hblamed := @blamed_of_failed good answer hgood
    cases hreply : answer.reply <;> simp only [hreply] at hthrow hblamed ⊢ <;> cases hthrow
    all_goals exact ⟨hw,hblamed (by decide)⟩

/-- Opening a file for appending is not seen where its name is not watched. -/
theorem openAppend_on {watched : JsString → Prop} (hname : ¬watched name)
    (hP : Stable watched P) : TripleOn good P (openAppend name) (fun _ => P)
      (fun error w => P w ∧ Blamed good error) := by
  refine TripleOn.perform ?_ ?_
  · intro w answer _ hw _ hret
    have hwritten := hP w _ (same_write hname w []) hw
    cases hreply : answer.reply <;> cases hfile : w.files.get name <;>
      simp only [hreply,hfile] at hret ⊢ <;> cases hret
    · exact hwritten
    · exact hw
  · intro w answer error hw hgood hthrow
    have hblamed := @blamed_of_failed good answer hgood
    have hwritten := hP w _ (same_write hname w []) hw
    cases hreply : answer.reply <;> cases hfile : w.files.get name <;>
      simp only [hreply,hfile] at hthrow hblamed ⊢ <;> cases hthrow
    · exact ⟨hw,hblamed (by decide)⟩
    · exact ⟨hw,hblamed (by decide)⟩
    · exact ⟨hwritten,hblamed (by decide)⟩
    · exact ⟨hw,hblamed (by decide)⟩

/-- Work under a lock fails as the work does, or because the lock file fails. -/
theorem withProcessFileLock_on {α : Type} {watched : JsString → Prop} {work : Io α}
    {returns : α → World → Prop} (hname : ¬watched name) (hP : Stable watched P)
    (hwork : TripleOn good P work returns fun _ _ => ¬AllOk good) :
    TripleOn good P (withProcessFileLock name work) returns fun _ _ => ¬AllOk good := by
  have hbarrier : ∀ Q : World → Prop, TripleOn good Q barrier (fun _ => Q)
      (fun _ _ => ¬AllOk good) := fun Q =>
    barrier_on.consequence (fun _ h => h) (fun _ _ h => h) fun _ _ h => h.2.2
  have hopen : TripleOn good P (openAppend name) (fun _ => P) (fun _ _ => ¬AllOk good) :=
    (openAppend_on hname hP).consequence (fun _ h => h) (fun _ _ h => h) fun _ _ h => h.2.2
  refine (hbarrier P).bind ?_
  intro _
  refine hopen.bind ?_
  intro _
  have houtcome : TripleOn good P (catching (do
      tryLock
      let value ← work
      return Except.ok value) (fun error => ret (.error error)))
      (fun outcome w => outcome.toOption.elim (¬AllOk good) fun value => returns value w) (fun _ _ => ¬AllOk good) := by
    refine TripleOn.catching (fun _ _ => ¬AllOk good) ((hbarrier P).bind ?_) ?_
    · intro _
      refine hwork.bind ?_
      intro value
      exact TripleOn.ret fun _ h => h
    · intro error
      exact TripleOn.ret fun _ h => h
  refine houtcome.bind ?_
  intro outcome
  have hclose : ∀ Q : World → Prop, TripleOn good Q (catching close fun _ => throw .other)
      (fun _ => Q) (fun _ _ => ¬AllOk good) := fun Q =>
    TripleOn.catching _ (hbarrier Q) fun _ => TripleOn.throw fun _ h => h
  cases outcome with
  | ok value =>
    refine (hclose (returns value)).bind ?_
    intro _
    exact TripleOn.ret fun _ h => h
  | error error =>
    refine (hclose fun _ => ¬AllOk good).bind ?_
    intro _
    exact TripleOn.throw fun _ h => h

end Steps

/-- Name of the record file of a row whose key is written like this. -/
theorem nativeRecordFile_eq {store id name : JsString} (h : nativeRecordFile store id = .ok (some name)) :
    ∃ encoded, UriComponent.encode id = some encoded ∧ name = store++unit '-'::(encoded++recordExtension) := by
  unfold nativeRecordFile at h
  cases hencoded : UriComponent.encode id with
  | none =>
    rw [hencoded] at h
    cases h
  | some encoded =>
    rw [hencoded] at h
    cases h
    exact ⟨encoded,rfl,rfl⟩

/-- No native namespace has a hyphen. -/
theorem native_plain {store : JsString} (h : store ∈ nativeAtomicNamespaces) : unit '-' ∉ store := by
  revert h store
  decide

/-- A record file gives its namespace and key back. -/
theorem record_parts {store encoded : JsString} (h : store ∈ nativeAtomicNamespaces) :
    recordStore (store++unit '-'::(encoded++recordExtension)) = store ∧
      recordKey (store++unit '-'::(encoded++recordExtension)) = encoded := by
  have hnone : store.findIdx? (fun u => decide (u = unit '-')) = none := by
    rw [List.findIdx?_eq_none_iff]
    intro u hu
    have hne : u ≠ unit '-' := fun heq => native_plain h (heq ▸ hu)
    simpa using hne
  have hseparator : separatorOf (store++unit '-'::(encoded++recordExtension)) =
      some store.length := by
    rw [separatorOf,List.findIdx?_append,hnone,List.findIdx?_cons]
    simp
  have hextension : recordExtension.length = 4 := by decide
  constructor
  · rw [recordStore,hseparator]
    exact List.take_left
  · rw [recordKey,hseparator]
    have hwhole : store++unit '-'::(encoded++recordExtension) =
        (store++[unit '-']++encoded)++recordExtension := by simp
    have hlength : (store++unit '-'::(encoded++recordExtension)).length-4 =
        (store++[unit '-']++encoded).length := by
      rw [hwhole,List.length_append,hextension]
      omega
    have hstart : (store++[unit '-']).length = store.length+1 := by simp
    rw [hlength,hwhole,List.take_left]
    dsimp only
    rw [← hstart,List.drop_left]

/-- A record file names one row. -/
theorem nativeRecordFile_inj {store id store' id' name : JsString}
    (hstore : store ∈ nativeAtomicNamespaces) (hstore' : store' ∈ nativeAtomicNamespaces)
    (h : nativeRecordFile store id = .ok (some name))
    (h' : nativeRecordFile store' id' = .ok (some name)) : store = store' ∧ id = id' := by
  obtain ⟨encoded,hencoded,rfl⟩ := nativeRecordFile_eq h
  obtain ⟨encoded',hencoded',hname⟩ := nativeRecordFile_eq h'
  have hparts := @record_parts store encoded hstore
  have hparts' := @record_parts store' encoded' hstore'
  rw [← hname] at hparts'
  have hsame : encoded = encoded' := hparts.2.symm.trans hparts'.2
  subst hsame
  have hdecoded := UriComponent.decode_encode
    (UriComponent.paired_of_encode (by rw [hencoded]; rfl)) hencoded
  have hdecoded' := UriComponent.decode_encode
    (UriComponent.paired_of_encode (by rw [hencoded']; rfl)) hencoded'
  rw [hdecoded] at hdecoded'
  exact ⟨hparts.1.symm.trans hparts'.1,Option.some.inj hdecoded'⟩

/-- A record file is one of the native store. -/
theorem isNative_recordFile {store id name : JsString} (hstore : store ∈ nativeAtomicNamespaces)
    (h : nativeRecordFile store id = .ok (some name)) : isNativeAtomicRecordFile name = true := by
  obtain ⟨encoded,_,rfl⟩ := nativeRecordFile_eq h
  rw [isNativeAtomicRecordFile,(record_parts hstore).1,Bool.and_eq_true]
  refine ⟨?_,List.contains_iff_mem.mpr hstore⟩
  rw [List.isSuffixOf_iff_suffix]
  exact ⟨store++unit '-'::encoded,by simp⟩

/-- The import accepts it, while its row was not imported yet. -/
theorem nativeImportKey_recordFile {store id name : JsString}
    (hstore : store ∈ nativeAtomicNamespaces) (h : nativeRecordFile store id = .ok (some name))
    {rows : AtomicRows Bytes} (hrows : rows.get (rowKey store id) = none) :
    nativeImportKey rows name = .ok (rowKey store id) := by
  obtain ⟨encoded,hencoded,rfl⟩ := nativeRecordFile_eq h
  obtain ⟨hname,hkey⟩ := @record_parts store encoded hstore
  have hdecoded := UriComponent.decode_encode
    (UriComponent.paired_of_encode (by rw [hencoded]; rfl)) hencoded
  unfold nativeImportKey
  rw [hkey,hdecoded]
  dsimp only
  rw [hencoded]
  dsimp only
  rw [hname,hrows]
  simp

section Import

variable {good : Answer → Prop} {rows : AtomicRows Bytes} {w : World}

/-- One of the files is the record file of a row, with its bytes. -/
def Sourced (w : World) (names : List JsString) (row : JsString) (value : Bytes) : Prop :=
  ∃ name ∈ names, ∃ store ∈ nativeAtomicNamespaces, ∃ id, row = rowKey store id ∧
    nativeRecordFile store id = .ok (some name) ∧ w.files.get name = some value

/-- Another file is the record file of no row. -/
theorem sourced_cons_other {name : JsString} (hname : ¬isNativeAtomicRecordFile name = true)
    (rest : List JsString) (row : JsString) (value : Bytes) :
    Sourced w (name::rest) row value ↔ Sourced w rest row value := by
  constructor
  · rintro ⟨other,hother,store,hstore,id,hrow,hfile,hvalue⟩
    rcases List.mem_cons.mp hother with rfl | hother
    · exact absurd (isNative_recordFile hstore hfile) hname
    · exact ⟨other,hother,store,hstore,id,hrow,hfile,hvalue⟩
  · rintro ⟨other,hother,hfound⟩
    exact ⟨other,List.mem_cons_of_mem _ hother,hfound⟩

/-- A record file adds its row. -/
theorem sourced_cons {name store id : JsString} {bytes : Bytes}
    (hstore : store ∈ nativeAtomicNamespaces) (hfile : nativeRecordFile store id = .ok (some name))
    (hbytes : w.files.get name = some bytes) (rest : List JsString) (row : JsString)
    (value : Bytes) : Sourced w (name::rest) row value ↔
      row = rowKey store id ∧ value = bytes ∨ Sourced w rest row value := by
  constructor
  · rintro ⟨other,hother,store',hstore',id',hrow,hfile',hvalue⟩
    rcases List.mem_cons.mp hother with rfl | hother
    · obtain ⟨rfl,rfl⟩ := nativeRecordFile_inj hstore hstore' hfile hfile'
      rw [hbytes] at hvalue
      exact .inl ⟨hrow,(Option.some.inj hvalue).symm⟩
    · exact .inr ⟨other,hother,store',hstore',id',hrow,hfile',hvalue⟩
  · rintro (⟨rfl,rfl⟩ | ⟨other,hother,hfound⟩)
    · exact ⟨name,List.mem_cons_self,store,hstore,id,rfl,hfile,hbytes⟩
    · exact ⟨other,List.mem_cons_of_mem _ hother,hfound⟩

/-- The import adds the rows of the record files among the names. -/
theorem importFiles_on {acc : AtomicRows Bytes} {names : List JsString} (hnodup : names.Nodup)
    (hsource : ∀ name ∈ names, ∃ value, w.files.get name = some value ∧
      (isNativeAtomicRecordFile name = true → ∃ store ∈ nativeAtomicNamespaces, ∃ id,
        nativeRecordFile store id = .ok (some name))) (hnew : ∀ name ∈ names, ∀ store ∈ nativeAtomicNamespaces, ∀ id,
      nativeRecordFile store id = .ok (some name) → acc.get (rowKey store id) = none) :
    TripleOn good (fun w' => w' = w) (nativeLayout.importFiles acc names)
      (fun last _ => ∀ row value, last.get row = some value ↔
        acc.get row = some value ∨ Sourced w names row value) (fun _ _ => ¬AllOk good) := by
  induction names generalizing acc with
  | nil =>
    refine TripleOn.ret ?_
    intro _ _ row value
    simp [Sourced]
  | cons name rest ih =>
    have hfacts := List.nodup_cons.mp hnodup
    have hsourceRest := fun other hother => hsource other (List.mem_cons_of_mem name hother)
    have hnewRest := fun other hother => hnew other (List.mem_cons_of_mem name hother)
    obtain ⟨bytes,hbytes,hrecord⟩ := hsource name List.mem_cons_self
    unfold SnapshotLayout.importFiles
    by_cases hname : isNativeAtomicRecordFile name = true
    · obtain ⟨store,hstore,id,hfile⟩ := hrecord hname
      have hrow := hnew name List.mem_cons_self store hstore id hfile
      have hkey : nativeLayout.importKey acc name = .ok (rowKey store id) := nativeImportKey_recordFile hstore hfile hrow
      rw [if_pos (show nativeLayout.isRecordFile name = true from hname),hkey]
      dsimp only
      have hread : TripleOn good (fun w' => w' = w) (readFile name)
          (fun read w' => w' = w ∧ read = bytes) (fun _ _ => ¬AllOk good) := by
        refine (readFile_on name).consequence (fun _ h => h) ?_ ?_
        · rintro read w' ⟨rfl,hread⟩
          rw [hbytes] at hread
          exact ⟨rfl,(Option.some.inj hread).symm⟩
        · rintro error w' ⟨rfl,⟨_,hnone⟩ | hblamed⟩
          · rw [hbytes] at hnone
            cases hnone
          · exact hblamed.2
      refine hread.bind ?_
      intro read
      have hkept : ∀ other ∈ rest, ∀ store' ∈ nativeAtomicNamespaces, ∀ id',
          nativeRecordFile store' id' = .ok (some other) →
          (acc.set (rowKey store id) read).get (rowKey store' id') = none := by
        intro other hother store' hstore' id' hfile'
        have hne : rowKey store id ≠ rowKey store' id' := by
          intro heq
          obtain ⟨rfl,rfl⟩ := rowKey_inj heq
          rw [hfile] at hfile'
          cases hfile'
          exact hfacts.1 hother
        rw [InsertionMap.get_set_ne _ _ hne]
        exact hnewRest other hother store' hstore' id' hfile'
      refine TripleOn.fix ?_
      rintro w' ⟨rfl,rfl⟩
      refine (ih hfacts.2 hsourceRest hkept).consequence (fun _ h => h) ?_ (fun _ _ h => h)
      intro last _ hlast row value
      rw [hlast row value,InsertionMap.get_set,sourced_cons hstore hfile hbytes]
      by_cases heq : rowKey store id = row
      · subst heq
        rw [if_pos rfl,hrow]
        simp [eq_comm]
      · rw [if_neg heq]
        simp [Ne.symm heq]
    · rw [if_neg (show ¬nativeLayout.isRecordFile name = true from hname)]
      refine (ih hfacts.2 hsourceRest hnewRest).consequence (fun _ h => h) ?_ (fun _ _ h => h)
      intro last _ hlast row value
      rw [hlast row value,sourced_cons_other hname]

/-- The record files are the rows, each with an encodable key, and there is no snapshot. -/
structure Migratable (rows : AtomicRows Bytes) (w : World) : Prop where
  /-- The files are the rows. -/
  exact : Exact nativeLayout rows w
  /-- There is no snapshot. -/
  gone : w.files.get nativeSnapshotName = none

theorem stable_migratable (rows : AtomicRows Bytes) : Stable (Watched nativeLayout) (Migratable rows) := by
  intro w w' hsame h
  exact ⟨stable_exact rows w w' hsame h.exact,
    (hsame.files _ (watched_snapshot nativeLayout)).trans h.gone⟩

/-- Record files that are rows are the record files of these rows. -/
theorem Migratable.sourced (h : Migratable rows w) (hrows : Canonical nativeAtomicNamespaces rows)
    (hids : ∀ store id, rows.get (rowKey store id) ≠ none → (UriComponent.encode id).isSome = true)
    {names : List JsString} (hnames : names.Perm w.files.keys) (row : JsString) (value : Bytes) :
    Sourced w names row value ↔ rows.get row = some value := by
  constructor
  · rintro ⟨name,_,store,hstore,id,rfl,hfile,hvalue⟩
    obtain ⟨store',id',hfile',hrow⟩ :=
      (h.exact name value (isNative_recordFile hstore hfile)).mp hvalue
    obtain ⟨other,hother,key,hkey⟩ :=
      hrows (rowKey store' id') (InsertionMap.mem_keys_iff.mpr ⟨value,hrow⟩)
    obtain ⟨rfl,rfl⟩ := rowKey_inj hkey
    obtain ⟨rfl,rfl⟩ := nativeRecordFile_inj hstore hother hfile hfile'
    exact hrow
  · intro hrow
    obtain ⟨store,hstore,id,rfl⟩ := hrows row (InsertionMap.mem_keys_iff.mpr ⟨value,hrow⟩)
    obtain ⟨encoded,hencoded⟩ := Option.isSome_iff_exists.mp (hids store id (by rw [hrow]; simp))
    have hfile : nativeRecordFile store id =
        .ok (some (store++unit '-'::(encoded++recordExtension))) := by
      rw [nativeRecordFile,hencoded]
    have hvalue := (h.exact _ value (isNative_recordFile hstore hfile)).mpr
      ⟨store,id,hfile,hrow⟩
    have hmem := hnames.symm.subset (InsertionMap.mem_keys_iff.mpr ⟨value,hvalue⟩)
    exact ⟨_,hmem,store,hstore,id,rfl,hfile,hvalue⟩

/-- A declared migration is not refused. -/
theorem requireOfflineMigration_on {P : World → Prop} :
    TripleOn good P (nativeLayout.requireOfflineMigration true) (fun _ => P) (fun _ _ => ¬AllOk good) := by
  have haccess : TripleOn good P (access nativeLayout.snapshotName) (fun _ => P)
      (fun error w => P w ∧ (error = .missing ∨ ¬AllOk good)) := by
    refine TripleOn.bind ((readFile_on _).consequence (fun _ h => h) (fun _ _ h => h) ?_) ?_
    · rintro error w ⟨hw,⟨hmissing,_⟩ | hblamed⟩
      · exact ⟨hw,.inl hmissing⟩
      · exact ⟨hw,.inr hblamed.2⟩
    · intro _
      exact TripleOn.ret fun _ h => h.1
  have hfound : TripleOn good P (found (access nativeLayout.snapshotName)) (fun _ => P)
      (fun _ _ => ¬AllOk good) := by
    refine TripleOn.catching _ (haccess.bind fun _ => TripleOn.ret fun _ h => h) ?_
    intro error
    cases error with
    | missing => exact TripleOn.ret fun _ h => h.1
    | other => exact TripleOn.throw fun _ h => h.2.resolve_left (by decide)
  refine hfound.bind ?_
  intro migrated
  rw [Bool.or_true,if_pos rfl]
  exact TripleOn.ret fun _ h => h

/-- Without a snapshot the rows are those of the import. -/
theorem readRows_on {importRows : Io (AtomicRows Bytes)} {returns : AtomicRows Bytes → World → Prop}
    (hgone : w.files.get nativeSnapshotName = none)
    (himport : TripleOn good (fun w' => w' = w) importRows returns fun _ _ => ¬AllOk good) :
    TripleOn good (fun w' => w' = w) (nativeLayout.readRows importRows) returns fun _ _ => ¬AllOk good := by
  refine TripleOn.bind (show TripleOn good _ _ (fun read w' => w' = w ∧ read = none) _ from ?_) ?_
  · refine TripleOn.catching (fun error w' => w' = w ∧ (error = .missing ∨ ¬AllOk good))
      (TripleOn.bind ((readFile_on _).consequence (fun _ h => h) (fun _ _ h => h) ?_) ?_) ?_
    · rintro error w' ⟨rfl,⟨hmissing,_⟩ | hblamed⟩
      · exact ⟨rfl,.inl hmissing⟩
      · exact ⟨rfl,.inr hblamed.2⟩
    · intro bytes
      refine TripleOn.fix ?_
      rintro w' ⟨rfl,hbytes⟩
      cases hgone.symm.trans hbytes
    · intro error
      cases error with
      | missing => exact TripleOn.ret fun _ h => ⟨h.1,rfl⟩
      | other => exact TripleOn.throw fun _ h => h.2.resolve_left (by decide)
  · intro read
    refine TripleOn.fix ?_
    rintro w' ⟨rfl,rfl⟩
    exact himport

/-- Opening an exported folder for migration reads its rows, or a step on a file failed. -/
theorem openedRows_on (hrows : Canonical nativeAtomicNamespaces rows)
    (hids : ∀ store id, rows.get (rowKey store id) ≠ none → (UriComponent.encode id).isSome = true) :
    TripleOn good (Migratable rows) (openedRows nativeLayout true)
      (fun last _ => ∀ row, last.get row = rows.get row) (fun _ _ => ¬AllOk good) := by
  refine requireOfflineMigration_on.bind ?_
  intro _
  refine withProcessFileLock_on (lockName_unwatched nativeLayout) (stable_migratable rows) ?_
  refine TripleOn.fix ?_
  intro w hw
  refine readRows_on hw.gone (requireOfflineMigration_on.bind ?_)
  intro _
  have hlist : TripleOn good (fun w' => w' = w) readdir
      (fun names w' => w' = w ∧ names.Perm w.files.keys) (fun _ _ => ¬AllOk good) :=
    readdir_on.consequence (fun _ h => h) (fun _ _ h => ⟨h.1,h.1 ▸ h.2⟩) fun _ _ h => h.2.2
  refine hlist.bind ?_
  intro names
  refine TripleOn.fix ?_
  rintro w' ⟨rfl,hnames⟩
  have hnodup : names.Nodup := hnames.nodup_iff.mpr w'.files.nodup
  have hsource : ∀ name ∈ names, ∃ value, w'.files.get name = some value ∧
      (isNativeAtomicRecordFile name = true → ∃ store ∈ nativeAtomicNamespaces, ∃ id,
        nativeRecordFile store id = .ok (some name)) := by
    intro name hname
    obtain ⟨value,hvalue⟩ := InsertionMap.mem_keys_iff.mp (hnames.subset hname)
    refine ⟨value,hvalue,fun hrecord => ?_⟩
    obtain ⟨store,id,hfile,hrow⟩ := (hw.exact name value hrecord).mp hvalue
    obtain ⟨other,hother,key,hkey⟩ :=
      hrows (rowKey store id) (InsertionMap.mem_keys_iff.mpr ⟨value,hrow⟩)
    obtain ⟨rfl,rfl⟩ := rowKey_inj hkey
    exact ⟨store,hother,id,hfile⟩
  refine (importFiles_on hnodup hsource fun _ _ _ _ _ _ => rfl).consequence (fun _ h => h) ?_
    (fun _ _ h => h)
  intro last _ hlast row
  have hsame : ∀ value, last.get row = some value ↔ rows.get row = some value := by
    intro value
    rw [hlast row value,hw.sourced hrows hids hnames]
    simp
  exact Option.ext hsame

end Import

section Published

variable {layout : SnapshotLayout} {digest : Bytes → JsString} {bytes : Option Bytes}

/-- The snapshot published last. -/
def LastPublished (layout : SnapshotLayout) (bytes : Option Bytes) (w : World) : Prop :=
  w.published layout.snapshotName = bytes

theorem stable_lastPublished : Stable (Watched layout) (LastPublished layout bytes) :=
  fun _ _ hsame h => (hsame.published _ (watched_snapshot layout)).trans h

/-- Publishing another file leaves it. -/
theorem LastPublished.publish {w : World} (h : LastPublished layout bytes w) {name : JsString}
    (hname : name ≠ layout.snapshotName) (contents : Bytes) : LastPublished layout bytes (publish w name contents) :=
  (Function.update_of_ne hname.symm _ _).trans h

theorem publish_lastPublished {name : JsString} (hname : name ≠ layout.snapshotName) (contents : Bytes) :
    Keeps (LastPublished layout bytes) (SnapshotLayout.publish name contents) := by
  have hput := publish_spec stable_lastPublished stable_lastPublished
    fun w hw => @LastPublished.publish layout bytes w hw name hname contents
  exact hput.fails (fun _ _ h => h.elim id id) (fun _ h => h.elim id id)

/-- An export publishes no snapshot. -/
theorem exportRows_lastPublished (rows : AtomicRows Bytes) :
    Keeps (LastPublished layout bytes) (layout.exportRows digest rows) := by
  unfold exportRows
  cases hfiles : layout.recordFiles InsertionMap.empty rows.entries with
  | error error => exact Keeps.throw _
  | ok files =>
    have hrecord : ∀ name ∈ files.keys, layout.isRecordFile name = true :=
      recordFiles_record hfiles (by simp)
    have hput : Keeps (LastPublished layout bytes)
        (forEach files.entries fun file => SnapshotLayout.publish file.1 file.2) := by
      have hloop := @Triple.forEach World Answer Failure _
        (fun _ => LastPublished layout bytes) (LastPublished layout bytes)
        (fun file => SnapshotLayout.publish file.1 file.2)
        (fun remaining w => LastPublished layout bytes w ∧ ∀ file ∈ remaining, file ∈ files.entries)
        ?_ files.entries
      · exact hloop.consequence (fun _ h => ⟨h,fun _ hm => hm⟩) (fun _ _ h => h.1)
          (fun _ _ h => h) (fun _ h => h)
      · intro file rest
        refine Triple.assume (file ∈ files.entries ∧ ∀ other ∈ rest, other ∈ files.entries)
          (fun _ h => ⟨h.2 file List.mem_cons_self,
            fun other ho => h.2 other (List.mem_cons_of_mem _ ho)⟩) ?_
        rintro ⟨hmem,hrest⟩
        have hname : file.1 ≠ layout.snapshotName := by
          intro heq
          have hrecorded := hrecord file.1 (List.mem_map_of_mem hmem)
          rw [heq,snapshot_not_record] at hrecorded
          cases hrecorded
        exact (publish_lastPublished hname file.2).consequence (fun _ h => h.1)
          (fun _ _ h => ⟨h,hrest⟩) (fun _ _ h => h) (fun _ h => h)
    have hunlink : ∀ name, Keeps (LastPublished layout bytes) (unlink name) := by
      intro name
      refine (unlink_spec fun w hw => hw).consequence (fun _ h => h) (fun _ _ h => h) ?_
        (fun _ h => h)
      rintro error w (⟨_,hw,_⟩ | ⟨_,hw⟩)
      · exact hw
      · exact hw.elim id id
    have hremove : ∀ names : List JsString, Keeps (LastPublished layout bytes)
        (forEach names fun name =>
          if layout.isRecordFile name && (files.get name).isNone then unlink name else ret ()) := by
      intro names
      refine Triple.forEach (fun _ => LastPublished layout bytes) ?_ names
      intro name rest
      split
      · exact hunlink name
      · exact Keeps.ret ()
    refine hput.bind fun _ => ?_
    refine (readdir_spec.weaken fun _ _ h => h.1).bind fun names => ?_
    refine (hremove names).bind fun _ => ?_
    refine Keeps.bind barrier_keeps fun _ => ?_
    refine Keeps.bind randomUUID_keeps fun uuid => ?_
    refine Keeps.bind (readFile_keeps _) fun contents => ?_
    refine Keeps.bind (publish_lastPublished (proof_ne_snapshot layout) _) fun _ => ?_
    refine Keeps.bind barrier_keeps fun _ => ?_
    refine Keeps.bind ?_ fun _ => barrier_keeps
    refine Keeps.perform ?_
    intro w answer hw
    have hpublished : ∀ contents, LastPublished layout bytes
        (publish (remove w layout.snapshotName) (layout.archive uuid) contents) :=
      fun contents => LastPublished.publish hw (archive_ne_snapshot layout uuid) contents
    cases w.files.get layout.snapshotName <;> cases answer.reply <;>
      first | exact hw | exact hpublished _

/-- Nor does an export of a folder. -/
theorem exportAuthSnapshot_lastPublished : Keeps (LastPublished layout bytes) (layout.exportAuthSnapshot digest) := by
  have hlocked : ∀ {α : Type} {work : Io α}, Keeps (LastPublished layout bytes) work →
      Keeps (LastPublished layout bytes) (withProcessFileLock layout.lockName work) :=
    fun hwork => withProcessFileLock_spec (lockName_unwatched layout) stable_lastPublished hwork
      (fun _ h => h) (fun _ _ h => h)
  have hverify : Keeps (LastPublished layout bytes) (layout.verifyRollbackProof digest) := by
    refine Keeps.catching (Keeps.bind (readFile_keeps _) fun proof => ?_) fun _ => Keeps.throw _
    split
    · exact Keeps.throw _
    · refine Keeps.bind (readFile_keeps _) fun archived => ?_
      split
      · exact Keeps.ret ()
      · exact Keeps.throw _
  have hcheck := found_spec (access_spec (P := LastPublished layout bytes) layout.snapshotName)
  refine (hcheck.weaken fun _ _ h => h.1).bind fun present => ?_
  cases present with
  | true =>
    exact hlocked (Keeps.bind (readRows_keeps (Keeps.throw _)) fun rows =>
      exportRows_lastPublished rows)
  | false => exact hlocked (Keeps.bind hverify fun _ => barrier_keeps)

end Published

/-- Exporting committed rows and migrating the folder again are inverse: after any attempts on a
folder whose snapshot holds the rows, an export that succeeds leaves a folder whose migration
reads the same rows, and rejects only where a step on a file fails. -/
theorem rollback_migration_inverse {digest : Bytes → JsString}
    (hdigest : ∀ bytes, isDigest (digest bytes) = true) (files : InsertionMap JsString Bytes)
    (hproof : files.get nativeLayout.proofName = none)
    (attempts : List (Attempt × List Answer)) {bytes : Bytes} {rows : AtomicRows Bytes}
    (hcommitted : (runAttempts nativeLayout digest (started files) attempts).files.get
      nativeSnapshotName = some bytes)
    (hrows : readSnapshot nativeAtomicNamespaces bytes = .ok rows)
    (hids : ∀ store id, rows.get (rowKey store id) ≠ none →
      (UriComponent.encode id).isSome = true)
    {answers rest : List Answer} {after : World}
    (hexport : nativeLayout.exportAuthSnapshot digest
      (runAttempts nativeLayout digest (started files) attempts) answers =
        .returned () after rest) (answers' : List Answer) :
    (openedRows nativeLayout true after answers').Holds
      (fun last _ => ∀ row, last.get row = rows.get row)
      (fun _ _ => ∃ answer ∈ answers', answer.reply ≠ .ok) (fun _ => True) := by
  have hcertified : Certified nativeLayout digest
      (runAttempts nativeLayout digest (started files) attempts) :=
    runAttempts_certified hdigest attempts (certified_of_unproven hproof fun _ h => h)
  generalize runAttempts nativeLayout digest (started files) attempts = before at *
  have hbefore : LastPublished nativeLayout (some bytes) before :=
    hcertified.present bytes hcommitted
  have hafter : LastPublished nativeLayout (some bytes) after := by
    have hkept := @exportAuthSnapshot_lastPublished nativeLayout digest (some bytes) before answers
      hbefore
    rw [hexport] at hkept
    exact hkept
  have hmigratable : Migratable rows after := by
    have hspec := @exportAuthSnapshot_spec nativeLayout digest hdigest before before answers
      ⟨hcertified,rfl,rfl⟩
    rw [hexport] at hspec
    obtain ⟨_,last,rows',_,_,_,hlast,hrows',hexact,hgone,_⟩ := hspec
    have hsame : last = bytes := Option.some.inj (hlast.symm.trans hafter)
    subst hsame
    have hrowsSame : rows' = rows := Except.ok.inj (hrows'.symm.trans hrows)
    exact ⟨hrowsSame ▸ hexact,hgone⟩
  have hopened := @openedRows_on (fun answer => answer ∈ answers') rows
    (canonical_of_readSnapshot hrows) hids after answers' hmigratable fun _ h => h
  cases hrun : openedRows nativeLayout true after answers' with
  | returned last state left =>
    rw [hrun] at hopened
    exact hopened.1
  | thrown error state left =>
    rw [hrun] at hopened
    have hfailed : ∃ answer, answer ∈ answers' ∧ answer.reply ≠ .ok := by
      simpa [AllOk] using hopened.1
    exact hfailed
  | crashed state => exact trivial

/-- A folder with a stale record file and the import of a row that is committed. -/
def staleFiles : InsertionMap JsString Bytes :=
  InsertionMap.empty.set (ofString "meta-stale.bin") [1]

/-- The row is committed without the stale file. -/
def committedRow : List (Attempt × List Answer) :=
  [(.transaction true fun _ =>
      .ok (InsertionMap.empty.set (rowKey (ofString "tc_token") [55357,56832]) [0,255],true),
      List.replicate 40 okAnswer)]

/-- The rows that are committed. -/
def committedRows : AtomicRows Bytes :=
  InsertionMap.empty.set (rowKey (ofString "tc_token") [55357,56832]) [0,255]

/-- An ending that returned is one. -/
theorem returned_of_hasReturned {σ χ ε α : Type} {ending : Ending σ χ ε α} (h : ending.hasReturned = true) :
    ∃ value rest, ending = .returned value ending.state rest := by
  cases ending with
  | returned value state rest => exact ⟨value,rest,rfl⟩
  | thrown error state rest => cases h
  | crashed state => cases h

/-- The export of the committed row. -/
def committedExport : Ending World Answer Failure Unit :=
  nativeLayout.exportAuthSnapshot rowDigest
    (runAttempts nativeLayout rowDigest (started staleFiles) committedRow)
    (List.replicate 60 okAnswer)

/-- The committed row is exported and migrated, and the stale file is gone. -/
theorem rollback_migration_inverse_stale :
    ∃ after rest last left state, committedExport = .returned () after rest ∧
      openedRows nativeLayout true after (List.replicate 40 okAnswer) =
        .returned last state left ∧ ∀ row, last.get row = committedRows.get row := by
  have hdigest : ∀ bytes, isDigest (rowDigest bytes) = true := by
    intro bytes
    unfold rowDigest
    decide
  have hcanonical : Canonical nativeAtomicNamespaces committedRows :=
    Canonical.set (.empty _) (by decide) _ _
  have hids : ∀ store id, committedRows.get (rowKey store id) ≠ none →
      (UriComponent.encode id).isSome = true := by
    intro store id hget
    by_cases heq : rowKey (ofString "tc_token") [55357,56832] = rowKey store id
    · obtain ⟨_,rfl⟩ := rowKey_inj heq
      decide
    · rw [committedRows,InsertionMap.get_set_ne _ _ heq] at hget
      exact absurd rfl hget
  have hproof : staleFiles.get nativeLayout.proofName = none := by decide +kernel
  have hcommitted : (runAttempts nativeLayout rowDigest (started staleFiles) committedRow).files.get
      nativeSnapshotName = some (snapshotBytes committedRows) := by decide +kernel
  have hreturned : committedExport.hasReturned = true := by decide +kernel
  have hopened : (openedRows nativeLayout true committedExport.state
      (List.replicate 40 okAnswer)).hasReturned = true := by decide +kernel
  obtain ⟨_,rest,hexport⟩ := returned_of_hasReturned hreturned
  obtain ⟨last,left,hlast⟩ := returned_of_hasReturned hopened
  generalize committedExport.state = after at hexport hlast
  generalize (openedRows nativeLayout true after (List.replicate 40 okAnswer)).state = state at hlast
  have hinverse := rollback_migration_inverse hdigest staleFiles hproof committedRow hcommitted
    (readSnapshot_snapshotBytes hcanonical) hids hexport (List.replicate 40 okAnswer)
  rw [hlast] at hinverse
  exact ⟨after,rest,last,left,state,hexport,hlast,hinverse⟩

end Baileyrs.SnapshotRollback
