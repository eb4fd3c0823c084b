import Baileyrs.CrashPrograms
import Baileyrs.InsertionMap
import Baileyrs.JsString
import Mathlib.Data.List.Perm.Basic
import Mathlib.Logic.Function.Basic

/-!
# Files of one folder

The steps programs perform on the files of a folder. The environment decides whether a
step fails, and a rename, an unlink or an exclusive open may fail after it took effect;
only a missing file is told apart from other failures. A file is replaced by writing a
temporary file and renaming it, which changes nothing else a reader watches.
-/

namespace Baileyrs.SnapshotFolder

open JsString CrashPrograms Program Function

/-- Whether an operation failed for a missing file. -/
inductive Failure where
  | missing
  | other
  deriving DecidableEq

/-- A lower-case hexadecimal digit. -/
def isHexDigit (u : UInt16) : Bool :=
  (48 ≤ u.toNat && u.toNat ≤ 57) || (97 ≤ u.toNat && u.toNat ≤ 102)

/-- A unit of a random identifier. -/
def isUuidUnit (u : UInt16) : Bool := isHexDigit u || u = unit '-'

/-- Text of a random identifier. -/
abbrev Uuid := {text : JsString // text.all isUuidUnit = true}

/-- How an operation ends; it may report a failure after it took effect. -/
inductive Reply where
  | ok
  | failed
  | failedAfter
  deriving DecidableEq

/-- Answer of the environment to one step. -/
structure Answer where
  /-- How the step ends. -/
  reply : Reply
  /-- Random identifier, if the step asks for one. -/
  uuid : Uuid
  /-- Bytes a failing write leaves. -/
  written : ℕ
  /-- Order of a listing. -/
  order : List JsString

/-- A folder. The last two fields only record what happened. -/
structure World where
  /-- The files. -/
  files : InsertionMap JsString Bytes
  /-- Contents last renamed onto a name. -/
  published : JsString → Option Bytes
  /-- Whether something else removed the snapshot. -/
  lost : Bool

/-- Programs over the folder. -/
abbrev Io (α : Type) := Program World Answer Failure α

/-- The folder with other contents of a file. -/
def write (w : World) (name : JsString) (bytes : Bytes) : World :=
  {w with files := w.files.set name bytes}

/-- The folder without a file. -/
def remove (w : World) (name : JsString) : World := {w with files := w.files.delete name}

/-- The folder after contents were renamed onto a name. -/
def publish (w : World) (name : JsString) (bytes : Bytes) : World :=
  {w with
    files := w.files.set name bytes
    published := update w.published name (some bytes)}

/-- Read a file. -/
def readFile (name : JsString) : Io Bytes :=
  perform fun w answer =>
    match answer.reply,w.files.get name with
    | .ok,some bytes => (w,.ok bytes)
    | .ok,none => (w,.error .missing)
    | _,_ => (w,.error .other)

/-- Check that a file is there. -/
def access (name : JsString) : Io Unit := do
  let _ ← readFile name
  return ()

/-- List the names of the files, in any order. -/
def readdir : Io (List JsString) :=
  perform fun w answer =>
    match answer.reply with
    | .ok => (w,.ok (if answer.order.isPerm w.files.keys then answer.order else w.files.keys))
    | _ => (w,.error .other)

/-- A step that changes no file. -/
def barrier : Io Unit :=
  perform fun w answer =>
    match answer.reply with
    | .ok => (w,.ok ())
    | _ => (w,.error .other)

/-- Sync an open file. -/
def sync : Io Unit := barrier

/-- Close an open file. -/
def close : Io Unit := barrier

/-- Sync the folder. -/
def syncDir : Io Unit := barrier

/-- Load the native module that locks files. -/
def importLocks : Io Unit := barrier

/-- Wait for the lock of an open file, up to its deadline. -/
def tryLock : Io Unit := barrier

/-- A random identifier. -/
def randomUUID : Io Uuid := perform fun w answer => (w,.ok answer.uuid)

/-- Open a new file for writing. -/
def openNew (name : JsString) : Io Unit :=
  perform fun w answer =>
    match w.files.get name,answer.reply with
    | none,.ok => (write w name [],.ok ())
    | none,.failedAfter => (write w name [],.error .other)
    | _,_ => (w,.error .other)

/-- Open a file for appending. -/
def openAppend (name : JsString) : Io Unit :=
  perform fun w answer =>
    match answer.reply,w.files.get name with
    | .failed,_ => (w,.error .other)
    | .ok,none => (write w name [],.ok ())
    | .ok,some _ => (w,.ok ())
    | .failedAfter,none => (write w name [],.error .other)
    | .failedAfter,some _ => (w,.error .other)

/-- Write a file just opened; a failing write leaves a part. -/
def writeFile (name : JsString) (bytes : Bytes) : Io Unit :=
  perform fun w answer =>
    match answer.reply with
    | .ok => (write w name bytes,.ok ())
    | _ => (write w name (bytes.take answer.written),.error .other)

/-- Rename a file over another. -/
def rename (source target : JsString) : Io Unit :=
  perform fun w answer =>
    match w.files.get source,answer.reply with
    | some bytes,.ok => (publish (remove w source) target bytes,.ok ())
    | some bytes,.failedAfter => (publish (remove w source) target bytes,.error .other)
    | none,.ok => (w,.error .missing)
    | _,_ => (w,.error .other)

/-- Remove a file. -/
def unlink (name : JsString) : Io Unit :=
  perform fun w answer =>
    match w.files.get name,answer.reply with
    | some _,.ok => (remove w name,.ok ())
    | some _,.failedAfter => (remove w name,.error .other)
    | none,.ok => (w,.error .missing)
    | _,_ => (w,.error .other)

/-- Ignore that a file is missing. -/
def unlessMissing : Failure → Io Unit
  | .missing => ret ()
  | .other => throw .other

/-- Work under the lock of a file. -/
def withProcessFileLock {α : Type} (name : JsString) (work : Io α) : Io α := do
  importLocks
  openAppend name
  let outcome ← catching (do
    tryLock
    let value ← work
    return Except.ok value) (fun error => ret (.error error))
  catching close (fun _ => throw .other)
  match outcome with
  | .ok value => ret value
  | .error error => throw error

/-- Replace a file through a temporary one, with a barrier after the rename. -/
def replaceFile (tmp name : JsString) (bytes : Bytes) (after : Io Unit) : Io Unit := do
  openNew tmp
  finallyDo (do
    writeFile tmp bytes
    sync
    close
    rename tmp name
    after) (do
    catching close (fun _ => ret ())
    catching (unlink tmp) unlessMissing)

/-- Two folders that look the same to a reader of the watched names. -/
structure Same (watched : JsString → Prop) (w w' : World) : Prop where
  /-- Watched files are the same. -/
  files : ∀ name, watched name → w'.files.get name = w.files.get name
  /-- So are the contents last renamed onto them. -/
  published : ∀ name, watched name → w'.published name = w.published name
  /-- And whether the snapshot was lost. -/
  lost : w'.lost = w.lost

/-- A property of the watched files. -/
def Stable (watched : JsString → Prop) (P : World → Prop) : Prop :=
  ∀ w w', Same watched w w' → P w → P w'

variable {watched : JsString → Prop} {P Q F : World → Prop} {name tmp : JsString} {bytes : Bytes}

theorem Stable.and (hP : Stable watched P) (hQ : Stable watched Q) : Stable watched (fun w => P w ∧ Q w) :=
  fun w w' hsame h => ⟨hP w w' hsame h.1,hQ w w' hsame h.2⟩

theorem Stable.or (hP : Stable watched P) (hQ : Stable watched Q) : Stable watched (fun w => P w ∨ Q w) :=
  fun w w' hsame h => h.imp (hP w w' hsame) (hQ w w' hsame)

/-- Writing an unwatched file is not seen. -/
theorem same_write (hname : ¬watched name) (w : World) (bytes : Bytes) : Same watched w (write w name bytes) := by
  refine ⟨?_,fun _ _ => rfl,rfl⟩
  intro other hother
  have hne : name ≠ other := by
    intro heq
    exact hname (heq ▸ hother)
  exact InsertionMap.get_set_ne _ _ hne

/-- Nor is removing one. -/
theorem same_remove (hname : ¬watched name) (w : World) : Same watched w (remove w name) := by
  refine ⟨?_,fun _ _ => rfl,rfl⟩
  intro other hother
  have hne : name ≠ other := by
    intro heq
    exact hname (heq ▸ hother)
  exact InsertionMap.get_delete_ne _ hne

/-- A renamed temporary file is only seen under its new name. -/
theorem same_renamed (htmp : ¬watched tmp) (w : World) (name : JsString) (bytes : Bytes) :
    Same watched (publish w name bytes) (publish (remove w tmp) name bytes) := by
  refine ⟨?_,fun _ _ => rfl,rfl⟩
  intro other hother
  change ((w.files.delete tmp).set name bytes).get other = (w.files.set name bytes).get other
  have hne : tmp ≠ other := by
    intro heq
    exact htmp (heq ▸ hother)
  rw [InsertionMap.get_set,InsertionMap.get_set,InsertionMap.get_delete_ne _ hne]

theorem readFile_spec (name : JsString) : Triple P (readFile name) (fun bytes w => P w ∧ w.files.get name = some bytes)
      (fun error w => P w ∧ (error = .missing → w.files.get name = none)) P := by
  refine Triple.perform (fun _ hs => hs) ?_ ?_
  · intro w answer bytes hw hret
    cases hreply : answer.reply <;> cases hfile : w.files.get name <;>
      simp only [hreply,hfile] at hret ⊢ <;> cases hret
    exact ⟨hw,rfl⟩
  · intro w answer error hw hthrow
    cases hreply : answer.reply <;> cases hfile : w.files.get name <;>
      simp only [hreply,hfile] at hthrow ⊢ <;> cases hthrow <;> simp [hw]

theorem readFile_found (name : JsString) :
    Triple P (readFile name) (fun bytes w => P w ∧ w.files.get name = some bytes) (fun _ => P) P :=
  (readFile_spec name).fails (fun _ _ h => h.1) (fun _ hs => hs)

theorem readFile_keeps (name : JsString) : Keeps P (readFile name) :=
  (readFile_found name).weaken fun _ _ h => h.1

theorem access_spec (name : JsString) : Triple P (access name) (fun _ => P)
      (fun error w => P w ∧ (error = .missing → w.files.get name = none)) P := by
  refine (readFile_spec name).bind ?_
  intro _
  exact Triple.ret fun _ h => h.1

theorem barrier_keeps : Keeps P barrier := by
  refine Keeps.perform ?_
  intro w answer hw
  cases answer.reply <;> exact hw

theorem readdir_spec : Triple P readdir (fun names w => P w ∧ ∀ name, name ∈ names ↔ name ∈ w.files.keys)
      (fun _ => P) P := by
  refine Triple.perform (fun _ hs => hs) ?_ ?_
  · intro w answer names hw hret
    cases hreply : answer.reply <;> simp only [hreply] at hret ⊢ <;> cases hret
    refine ⟨hw,?_⟩
    intro name
    split
    · rename_i hperm
      exact (List.isPerm_iff.mp hperm).mem_iff
    · rfl
  · intro w answer error hw hthrow
    cases hreply : answer.reply <;> simp only [hreply] at hthrow ⊢ <;> cases hthrow <;> exact hw

theorem randomUUID_keeps : Keeps P randomUUID := Keeps.perform fun _ _ hw => hw

/-- A step that may write an unwatched file. -/
theorem openNew_spec (hname : ¬watched name) (hP : Stable watched P) : Keeps P (openNew name) := by
  refine Keeps.perform ?_
  intro w answer hw
  have hwritten := hP w _ (same_write hname w []) hw
  cases hfile : w.files.get name <;> cases hreply : answer.reply <;> simp only [] <;> assumption

theorem openAppend_spec (hname : ¬watched name) (hP : Stable watched P) : Keeps P (openAppend name) := by
  refine Keeps.perform ?_
  intro w answer hw
  have hwritten := hP w _ (same_write hname w []) hw
  cases hreply : answer.reply <;> cases hfile : w.files.get name <;> simp only [] <;> assumption

theorem writeFile_spec (hname : ¬watched name) (hP : Stable watched P) (bytes : Bytes) :
    Triple P (writeFile name bytes) (fun _ w => P w ∧ w.files.get name = some bytes) (fun _ => P) P := by
  refine Triple.perform (fun _ hs => hs) ?_ ?_
  · intro w answer _ hw hret
    cases hreply : answer.reply <;> simp only [hreply] at hret ⊢ <;> cases hret
    exact ⟨hP w _ (same_write hname w bytes) hw,InsertionMap.get_set_self _ _ _⟩
  · intro w answer error hw hthrow
    have hwritten := hP w _ (same_write hname w (bytes.take answer.written)) hw
    cases hreply : answer.reply <;> simp only [hreply] at hthrow ⊢ <;> cases hthrow <;>
      exact hwritten

/-- A rename puts the contents of the source in the place of the target. -/
theorem rename_spec {source target : JsString} {bytes : Bytes} (hsource : ∀ w, P w → w.files.get source = some bytes)
    (hQ : ∀ w, P w → Q (publish (remove w source) target bytes)) :
    Triple P (rename source target) (fun _ => Q) (fun _ w => P w ∨ Q w) P := by
  refine Triple.perform (fun _ hs => hs) ?_ ?_
  · intro w answer _ hw hret
    have hfile := hsource w hw
    cases hreply : answer.reply <;> simp only [hreply,hfile] at hret ⊢ <;> cases hret
    exact hQ w hw
  · intro w answer error hw hthrow
    have hfile := hsource w hw
    cases hreply : answer.reply <;> simp only [hreply,hfile] at hthrow ⊢ <;> cases hthrow
    · exact .inl hw
    · exact .inr (hQ w hw)

/-- An unlink removes the file, unless it is missing. -/
theorem unlink_spec (hQ : ∀ w, P w → Q (remove w name)) : Triple P (unlink name) (fun _ => Q)
      (fun error w => error = .missing ∧ P w ∧ w.files.get name = none ∨ error = .other ∧ (P w ∨ Q w)) P := by
  refine Triple.perform (fun _ hs => hs) ?_ ?_
  · intro w answer _ hw hret
    cases hfile : w.files.get name <;> cases hreply : answer.reply <;>
      simp only [hreply,hfile] at hret ⊢ <;> cases hret
    exact hQ w hw
  · intro w answer error hw hthrow
    cases hfile : w.files.get name <;> cases hreply : answer.reply <;>
      simp only [hreply,hfile] at hthrow ⊢ <;> cases hthrow
    · exact .inl ⟨rfl,hw,trivial⟩
    · exact .inr ⟨rfl,.inl hw⟩
    · exact .inr ⟨rfl,.inl hw⟩
    · exact .inr ⟨rfl,.inl hw⟩
    · exact .inr ⟨rfl,.inr (hQ w hw)⟩

theorem unlink_keeps (hname : ¬watched name) (hP : Stable watched P) : Keeps P (unlink name) := by
  have hremove : ∀ w, P w → P (remove w name) := fun w hw => hP w _ (same_remove hname w) hw
  refine (unlink_spec hremove).consequence (fun _ hs => hs) (fun _ _ hs => hs) ?_ (fun _ hs => hs)
  intro error w h
  rcases h with ⟨_,hw,_⟩ | ⟨_,hw | hw⟩
  · exact hw
  · exact hw
  · exact hw

theorem unlessMissing_keeps (error : Failure) : Keeps P (unlessMissing error) := by
  cases error with
  | missing => exact Keeps.ret ()
  | other => exact Keeps.throw _

/-- A file is replaced as a whole or not at all, in the eyes of a reader. -/
theorem replaceFile_spec {after : Io Unit} (htmp : ¬watched tmp) (hP : Stable watched P)
    (hQ : Stable watched Q) (hput : ∀ w, P w → Q (publish w name bytes)) (hafter : Keeps Q after) :
    Triple P (replaceFile tmp name bytes after) (fun _ => Q) (fun _ w => P w ∨ Q w) (fun w => P w ∨ Q w) := by
  have hblock : ∀ R, Stable watched R → Keeps R (do
      catching close (fun _ => ret ())
      catching (unlink tmp) unlessMissing) := by
    intro R hR
    refine (Keeps.catching barrier_keeps (fun _ => Keeps.ret ())).bind ?_
    intro _
    exact (unlink_keeps htmp hR).catching unlessMissing_keeps
  have hbody : Triple P (do
      writeFile tmp bytes
      sync
      close
      rename tmp name
      after) (fun _ => Q) (fun _ w => P w ∨ Q w) (fun w => P w ∨ Q w) := by
    have hwrite := writeFile_spec htmp hP bytes
    refine (hwrite.fails (fun _ _ => Or.inl) (fun _ => Or.inl)).bind ?_
    intro _
    refine (barrier_keeps.fails fun _ hs => .inl hs.1).bind ?_
    intro _
    refine (barrier_keeps.fails fun _ hs => .inl hs.1).bind ?_
    intro _
    have hrename : Triple (fun w => P w ∧ w.files.get tmp = some bytes) (rename tmp name)
        (fun _ => Q) (fun _ w => (P w ∧ w.files.get tmp = some bytes) ∨ Q w)
        (fun w => P w ∧ w.files.get tmp = some bytes) := by
      refine rename_spec (fun w hw => hw.2) ?_
      intro w hw
      exact hQ _ _ (same_renamed htmp w name bytes) (hput w hw.1)
    refine (hrename.fails (fun _ _ hs => hs.imp And.left id) (fun _ hs => .inl hs.1)).bind ?_
    intro _
    exact hafter.fails fun _ => .inr
  refine ((openNew_spec htmp hP).fails fun _ => .inl).bind ?_
  intro _
  refine hbody.finallyDo ?_ ?_
  · intro _
    exact (hblock Q hQ).fails fun _ => .inr
  · intro _
    exact hblock _ (hP.or hQ)

/-- Work under a lock fails as the work does, or because the lock file fails. -/
theorem withProcessFileLock_spec {α : Type} {work : Io α} {returns : α → World → Prop}
    (hname : ¬watched name) (hP : Stable watched P)
    (hwork : Triple P work returns (fun _ => F) F) (hPF : ∀ w, P w → F w)
    (hreturns : ∀ value w, returns value w → F w) :
    Triple P (withProcessFileLock name work) returns (fun _ => F) F := by
  refine (barrier_keeps.fails hPF).bind ?_
  intro _
  refine ((openAppend_spec hname hP).fails hPF).bind ?_
  intro _
  have houtcome : Triple P (catching (do
      tryLock
      let value ← work
      return Except.ok value) (fun error => ret (.error error)))
      (fun outcome w => match outcome with
        | .ok value => returns value w
        | .error _ => F w) (fun _ => F) F := by
    refine Triple.catching (fun _ => F) ((barrier_keeps.fails hPF).bind ?_) ?_
    · intro _
      refine hwork.bind ?_
      intro value
      exact Triple.ret fun _ hs => hs
    · intro error
      exact Triple.ret fun _ hs => hs
  refine houtcome.bind ?_
  intro outcome
  cases outcome with
  | ok value =>
    have hclose : Keeps (returns value) (catching close fun _ => throw .other) :=
      Keeps.catching barrier_keeps fun _ => Keeps.throw _
    refine (hclose.fails (hreturns value)).bind ?_
    intro _
    exact Triple.ret fun _ hs => hs
  | error error =>
    refine Triple.bind (Keeps.catching (barrier_keeps (P := F)) fun _ => Keeps.throw _) ?_
    intro _
    exact Triple.throw fun _ hs => hs

end Baileyrs.SnapshotFolder
