import Baileyrs.LabelledRuns
import Baileyrs.SnapshotRows
import Mathlib.Logic.Function.Basic

/-!
# Snapshot transactions

Adapters of any number of processes share one snapshot file. An adapter runs
its calls one after another; each opens the lock file, polls for the exclusive
lock, reads the rows and hands them to its callback. A transaction publishes
the changed rows through a synced temporary file and a rename, and closing the
lock file releases the lock. A crash ends every call of a process between two
steps and frees its lock.
-/

namespace Baileyrs.SnapshotTransactions

open LabelledRuns SnapshotRows Function

variable {A P B : Type*}

/-- Calls of an adapter. A read callback settles or throws; a change yields
the changed rows or throws, and its condition answers or throws. -/
inductive Call (B : Type*) where
  | read (settles : Bool)
  | transaction (change : AtomicRows B → Option (AtomicRows B)) (shouldPersist : Option Bool)

/-- Steps of publishing the changed rows; the temporary file is named by its
random identifier. -/
inductive Publication where
  | clearing
  | clearSyncing
  | opening
  | writing (tmp : ℕ)
  | syncing (tmp : ℕ)
  | closing (tmp : ℕ)
  | replacing (tmp : ℕ)
  | dirSyncing (tmp : ℕ)
  | unlinking (tmp : ℕ) (failed : Bool)
  deriving DecidableEq

/-- How a call settled, with the rows its callback left. -/
inductive Outcome (B : Type*) where
  | resolved (rows : AtomicRows B)
  | rejected

/-- Where a call is suspended. -/
inductive Stage (B : Type*) where
  | queued
  | opening
  | locking
  | reading
  | importing
  | calling (rows : AtomicRows B)
  | persisting (before rows : AtomicRows B) (io : Publication)
  | closing (outcome : Outcome B)

/-- One call on the chain of an adapter. -/
structure Job (B : Type*) where
  /-- Identity of the call. -/
  id : ℕ
  /-- What was called. -/
  call : Call B
  /-- Where it is suspended. -/
  stage : Stage B

/-- The folder. -/
structure Disk (B : Type*) where
  /-- Snapshot file. -/
  file : Option (SnapshotText B)
  /-- Temporary files. -/
  tmp : ℕ → Option (SnapshotText B)
  /-- Whether a rollback proof is present. -/
  proof : Bool

/-- A rename that took effect. -/
structure Commit (B : Type*) where
  /-- Acquisition of the lock it happened under. -/
  turn : ℕ
  /-- The committed call. -/
  call : ℕ
  /-- Its change. -/
  change : AtomicRows B → Option (AtomicRows B)
  /-- Rows the change was given. -/
  before : AtomicRows B
  /-- Rows it published. -/
  after : AtomicRows B

/-- Rows given to a callback. -/
structure Handover (B : Type*) where
  /-- Acquisition of the lock it happened under. -/
  turn : ℕ
  /-- The call whose callback it was. -/
  call : ℕ
  /-- The rows. -/
  rows : AtomicRows B

/-- All adapters, the folder and the lock. The last five fields only record
what happened. -/
structure State (A P B : Type*) where
  /-- Next unused identity of a call. -/
  fresh : ℕ
  /-- The folder. -/
  disk : Disk B
  /-- Adapter and call whose descriptor holds the lock. -/
  owner : Option (A × ℕ)
  /-- Calls of an adapter, the running one first. -/
  jobs : A → List (Job B)
  /-- Crashed processes. -/
  crashed : P → Bool
  /-- Number of lock acquisitions so far. -/
  turn : ℕ
  /-- Admitted calls. -/
  calls : ℕ → Option (Call B)
  /-- Settled calls. -/
  results : ℕ → Option (Outcome B)
  /-- Rows the import of a call resolved with. -/
  imports : ℕ → Option (AtomicRows B)
  /-- Renames that took effect, oldest first. -/
  log : List (Commit B)
  /-- Rows given to callbacks, oldest first. -/
  handed : List (Handover B)

/-- Reply to a rename; it is atomic, but may fail after it took effect. -/
inductive RenameReply where
  | renamed
  | failedAfter
  | failed
  deriving DecidableEq

/-- Steps of the adapters and their environment. -/
inductive Action (A P B : Type*) where
  | invoke (a : A) (call : Call B)
  | start (a : A)
  | openLock (a : A) (ok : Bool)
  | tryLock (a : A)
  | timeout (a : A)
  | readFile (a : A) (ok : Bool)
  | importRows (a : A) (reply : Option (AtomicRows B))
  | callback (a : A)
  | io (a : A) (ok : Bool)
  | openTmp (a : A) (tmp : ℕ) (ok : Bool)
  | writeFile (a : A) (torn : Option (SnapshotText B))
  | rename (a : A) (reply : RenameReply)
  | closeLock (a : A) (ok released : Bool)
  | crash (p : P)

section Steps

variable [DecidableEq A] [DecidableEq P] (process : A → P) (namespaces : List JsString)

/-- The running call of an adapter moves on. -/
def advance (s : State A P B) (a : A) (job : Job B) (rest : List (Job B)) (stage : Stage B) :
    State A P B :=
  {s with jobs := update s.jobs a ({job with stage := stage}::rest)}

/-- Rows were read under the lock and go to the callback. -/
def handOver (s : State A P B) (a : A) (job : Job B) (rest : List (Job B)) (rows : AtomicRows B) :
    State A P B :=
  advance {s with handed := s.handed++[⟨s.turn,job.id,rows⟩]} a job rest (.calling rows)

/-- Read the snapshot file; without one the rows are imported. -/
def readRows (s : State A P B) (a : A) (job : Job B) (rest : List (Job B)) : State A P B :=
  match s.disk.file with
  | none => advance s a job rest .importing
  | some text =>
    match decodeRows namespaces text with
    | some rows => handOver s a job rest rows
    | none => advance s a job rest (.closing .rejected)

/-- What follows the callback of a call. -/
def afterCallback (rows : AtomicRows B) : Call B → Stage B
  | .read settles => .closing (if settles then .resolved rows else .rejected)
  | .transaction change shouldPersist =>
    match change rows,shouldPersist with
    | some changed,some true => .persisting rows changed .clearing
    | some changed,some false => .closing (.resolved changed)
    | _,_ => .closing .rejected

/-- One awaited step of publishing whose reply is only success or failure. -/
def publishIo (s : State A P B) (a : A) (job : Job B) (rest : List (Job B))
    (before rows : AtomicRows B) (ok : Bool) : Publication → Option (State A P B)
  | .clearing =>
    if s.disk.proof = false then some (advance s a job rest (.persisting before rows .opening))
    else if ok then
      some (advance {s with disk := {s.disk with proof := false}} a job rest
        (.persisting before rows .clearSyncing))
    else some (advance s a job rest (.closing .rejected))
  | .clearSyncing =>
    if ok then some (advance s a job rest (.persisting before rows .opening))
    else some (advance s a job rest (.closing .rejected))
  | .syncing tmp =>
    if ok then some (advance s a job rest (.persisting before rows (.closing tmp)))
    else some (advance s a job rest (.persisting before rows (.unlinking tmp true)))
  | .closing tmp =>
    if ok then some (advance s a job rest (.persisting before rows (.replacing tmp)))
    else some (advance s a job rest (.persisting before rows (.unlinking tmp true)))
  | .dirSyncing tmp => some (advance s a job rest (.persisting before rows (.unlinking tmp !ok)))
  | .unlinking tmp failed =>
    let outcome : Outcome B := if failed then .rejected else .resolved rows
    if s.disk.tmp tmp = none then some (advance s a job rest (.closing outcome))
    else if ok then
      some (advance {s with disk := {s.disk with tmp := update s.disk.tmp tmp none}} a job rest
        (.closing outcome))
    else some (advance s a job rest (.closing .rejected))
  | _ => none

/-- Rename the temporary file onto the snapshot file. -/
def publishRename (s : State A P B) (a : A) (job : Job B) (rest : List (Job B))
    (before rows : AtomicRows B) (tmp : ℕ) (reply : RenameReply) : State A P B :=
  let next : Publication := if reply = .renamed then .dirSyncing tmp else .unlinking tmp true
  if reply = .failed then advance s a job rest (.persisting before rows next)
  else
    let disk := {s.disk with file := s.disk.tmp tmp, tmp := update s.disk.tmp tmp none}
    let log := match job.call with
      | .transaction change _ => s.log++[⟨s.turn,job.id,change,before,rows⟩]
      | .read _ => s.log
    advance {s with disk := disk, log := log} a job rest (.persisting before rows next)

/-- The running call settles and the next one gets its turn. -/
def settle (s : State A P B) (a : A) (job : Job B) (rest : List (Job B)) (outcome : Outcome B) :
    State A P B :=
  {s with jobs := update s.jobs a rest, results := update s.results job.id (some outcome)}

/-- Close the lock file; a failed close may or may not release the lock. -/
def closeLock (s : State A P B) (a : A) (job : Job B) (rest : List (Job B)) (outcome : Outcome B)
    (ok released : Bool) : State A P B :=
  let owner := if s.owner = some (a,job.id) ∧ (ok || released) then none else s.owner
  settle {s with owner := owner} a job rest (if ok then outcome else .rejected)

/-- A process ends: its calls vanish and its descriptors close. -/
def crash (s : State A P B) (p : P) : State A P B :=
  {s with
    owner := s.owner.filter fun holder => process holder.1 ≠ p
    jobs := fun a => if process a = p then [] else s.jobs a
    crashed := update s.crashed p true}

/-- One step of the running call of an adapter. -/
def jobStep (s : State A P B) (a : A) (job : Job B) (rest : List (Job B)) :
    Action A P B → Option (State A P B)
  | .start _ =>
    match job.stage with
    | .queued => some (advance s a job rest .opening)
    | _ => none
  | .openLock _ ok =>
    match job.stage with
    | .opening =>
      if ok then some (advance s a job rest .locking) else some (settle s a job rest .rejected)
    | _ => none
  | .tryLock _ =>
    match job.stage,s.owner with
    | .locking,none =>
      some (advance {s with owner := some (a,job.id), turn := s.turn+1} a job rest .reading)
    | _,_ => none
  | .timeout _ =>
    match job.stage with
    | .locking => some (advance s a job rest (.closing .rejected))
    | _ => none
  | .readFile _ ok =>
    match job.stage with
    | .reading =>
      if ok then some (readRows namespaces s a job rest)
      else some (advance s a job rest (.closing .rejected))
    | _ => none
  | .importRows _ reply =>
    match job.stage,reply with
    | .importing,some rows =>
      some (handOver {s with imports := update s.imports job.id (some rows)} a job rest rows)
    | .importing,none => some (advance s a job rest (.closing .rejected))
    | _,_ => none
  | .callback _ =>
    match job.stage with
    | .calling rows => some (advance s a job rest (afterCallback rows job.call))
    | _ => none
  | .io _ ok =>
    match job.stage with
    | .persisting before rows io => publishIo s a job rest before rows ok io
    | _ => none
  | .openTmp _ tmp ok =>
    match job.stage with
    | .persisting before rows .opening =>
      if ok ∧ s.disk.tmp tmp = none then
        some (advance {s with disk := {s.disk with tmp := update s.disk.tmp tmp (some .malformed)}}
          a job rest (.persisting before rows (.writing tmp)))
      else some (advance s a job rest (.closing .rejected))
    | _ => none
  | .writeFile _ torn =>
    match job.stage with
    | .persisting before rows (.writing tmp) =>
      let text := torn.getD (encodeRows rows)
      let next : Publication := if torn.isNone then .syncing tmp else .unlinking tmp true
      some (advance {s with disk := {s.disk with tmp := update s.disk.tmp tmp (some text)}}
        a job rest (.persisting before rows next))
    | _ => none
  | .rename _ reply =>
    match job.stage with
    | .persisting before rows (.replacing tmp) =>
      some (publishRename s a job rest before rows tmp reply)
    | _ => none
  | .closeLock _ ok released =>
    match job.stage with
    | .closing outcome => some (closeLock s a job rest outcome ok released)
    | _ => none
  | _ => none

/-- Adapter whose running call a step is about. -/
def Action.adapter : Action A P B → Option A
  | .invoke _ _ => none
  | .crash _ => none
  | .start a => some a
  | .openLock a _ => some a
  | .tryLock a => some a
  | .timeout a => some a
  | .readFile a _ => some a
  | .importRows a _ => some a
  | .callback a => some a
  | .io a _ => some a
  | .openTmp a _ _ => some a
  | .writeFile a _ => some a
  | .rename a _ => some a
  | .closeLock a _ _ => some a

/-- Execute one step. -/
def step (s : State A P B) (action : Action A P B) : Option (State A P B) :=
  match action,action.adapter with
  | .invoke a call,_ =>
    if s.crashed (process a) then none
    else some {s with
      fresh := s.fresh+1
      jobs := update s.jobs a (s.jobs a++[⟨s.fresh,call,.queued⟩])
      calls := update s.calls s.fresh (some call)}
  | .crash p,_ => some (crash process s p)
  | action,some a =>
    match s.jobs a with
    | job::rest => jobStep namespaces s a job rest action
    | [] => none
  | _,none => none

end Steps

/-- No call was made; the folder is arbitrary. -/
structure Opened (s : State A P B) : Prop where
  /-- Identities are unused. -/
  calls : ∀ id, s.calls id = none
  /-- Nothing settled. -/
  results : ∀ id, s.results id = none
  /-- Nothing was imported. -/
  imports : ∀ id, s.imports id = none
  /-- No call is waiting or running. -/
  jobs : ∀ a, s.jobs a = []
  /-- Nothing was committed. -/
  log : s.log = []
  /-- No callback was called. -/
  handed : s.handed = []

/-- Commits made before an acquisition of the lock. -/
def committedBefore (log : List (Commit B)) (turn : ℕ) : List (Commit B) :=
  log.filter fun commit => commit.turn < turn

/-- Rows the commits leave: those of the last one; before any commit those of
the first snapshot file, or those imported by the call itself. -/
def LeftBy (namespaces : List JsString) (first : Option (SnapshotText B))
    (imported : Option (AtomicRows B)) (commits : List (Commit B)) (rows : AtomicRows B) : Prop :=
  match commits.getLast?,first with
  | some commit,_ => rows = commit.after
  | none,some text => decodeRows namespaces text = some rows
  | none,none => imported = some rows

end Baileyrs.SnapshotTransactions
