import Baileyrs.InsertionMap
import Baileyrs.LabelledRuns
import Mathlib.Data.Finset.Basic
import Mathlib.Logic.Function.Basic

/-!
# The per-key bridge store

Every operation on one key runs through that key's promise chain: at most one
operation of a chain is suspended on file I/O while the others wait in
admission order. Timers fire between microtasks, so never while the front of
their key's chain is due to start. Each I/O step carries the outcome its
environment chooses. The fields `disk` and `barrier` describe the folder; no
operation of the store reads `barrier`.
-/

namespace Baileyrs.BridgeStore

open LabelledRuns Function

/-- Contents of one file. -/
abbrev Bytes := List UInt8

/-- One namespace and key. Store names never contain a hyphen or a NUL, so
the cache key, the chain and the file of a key determine it. -/
structure StoreKey where
  /-- Store namespace. -/
  store : String
  /-- Key inside the namespace. -/
  key : String
  /-- The file name splits at its first hyphen. -/
  store_noHyphen : '-' ∉ store.toList
  /-- The cache key splits at its first NUL. -/
  store_noNul : Char.ofNat 0 ∉ store.toList
  deriving DecidableEq

/-- Stores that complete the full barrier before a set resolves. -/
def criticalStores : List String :=
  ["session","identity","device","prekey","sync_key","sender_key","sync_version","mutation_mac"]

/-- Whether a set of this key is written through. -/
def critical (k : StoreKey) : Bool := criticalStores.contains k.store

/-- Fresh temp names tried by one durable write. -/
def maxTmpAttempts : ℕ := 5

/-- Entries kept as known durable bytes. -/
def maxCacheEntries : ℕ := 5000

/-- Passes of one flush before it reports that it did not quiesce. -/
def flushMaxPasses : ℕ := 32

/-- Handle of one timer with the key its callback flushes. -/
structure TimerHandle where
  /-- Identity of the timer. -/
  id : ℕ
  /-- Key flushed when it fires. -/
  key : StoreKey
  deriving DecidableEq

/-- A debounced write. The object identity decides `===` and the membership
in a failed set. -/
structure PendingEntry where
  /-- Identity of the entry object. -/
  object : ℕ
  /-- Private copy of the bytes taken at admission. -/
  value : Bytes
  /-- Timer handle; none after a failed flush. -/
  timer : Option TimerHandle
  deriving DecidableEq

/-- Operations a caller can admit on one key. -/
inductive KeyCall where
  | set (value : Bytes)
  | get
  | delete
  deriving DecidableEq

/-- Calls that may change what the key holds. -/
def KeyCall.mutates : KeyCall → Bool
  | .set _ => true
  | .get => false
  | .delete => true

/-- Failure set of one flush, or of one drain shared by several calls. -/
inductive ScopeId where
  | own (flush : ℕ)
  | drain (id : ℕ)
  deriving DecidableEq

/-- Functions run by a key's chain. Only the calls are tracked as admitted. -/
inductive JobOp where
  | call (call : KeyCall)
  | flushOne (failedEntries : Option ScopeId)
  deriving DecidableEq

/-- One queued promise function with its identity. -/
structure Job where
  /-- Identity of the promise. -/
  id : ℕ
  /-- Function it runs. -/
  op : JobOp
  deriving DecidableEq

/-- Bytes handed to a durable write, with the pending entry when the write
flushes one and none when a critical set writes through. -/
structure Write where
  /-- Bytes being written. -/
  value : Bytes
  /-- Entry captured by the flush. -/
  entry : Option PendingEntry
  deriving DecidableEq

/-- State captured by a delete before it unlinks. -/
structure Captured where
  /-- Pending entry removed by the delete. -/
  prevPending : Option PendingEntry
  /-- Known durable bytes removed by the delete. -/
  prevDurable : Option Bytes
  /-- Whether the key was uncertain. -/
  wasUncertain : Bool
  deriving DecidableEq

/-- I/O step a running operation is suspended on. -/
inductive Awaiting where
  | writeTmp (write : Write) (attempt : ℕ)
  | publishTmp (write : Write)
  | syncDir (write : Write)
  | unlinkTmp (write : Write)
  | readFile (keyUncertain : Bool)
  | unlink (prev : Captured)
  | syncAbsent (prev : Captured)
  | syncUnlinked
  deriving DecidableEq

/-- Chain of one key: a suspended operation and the ones behind it. -/
structure Chain where
  /-- Operation suspended on I/O. -/
  running : Option (Job × Awaiting)
  /-- Operations not started yet, in admission order. -/
  waiting : List Job
  deriving DecidableEq

/-- How a promise settled; reads resolve with bytes or with nothing. -/
inductive Outcome where
  | resolved (value : Option Bytes)
  | rejected
  deriving DecidableEq

/-- Last mutation of a file: none since the store opened, one whose barrier
is not complete, or one whose full barrier completed. -/
inductive FileBarrier where
  | asOpened
  | incomplete
  | complete
  deriving DecidableEq

/-- One call made by a user of the store. -/
structure Admission where
  /-- Identity of the returned promise. -/
  id : ℕ
  /-- Key it concerns. -/
  key : StoreKey
  /-- Requested operation. -/
  call : KeyCall
  deriving DecidableEq

/-- Where one flush is suspended, or how it settled. -/
inductive FlushStage where
  | barrier (outstanding : List ℕ)
  | draining (operations : List ℕ)
  | resolved
  | rejected
  deriving DecidableEq

/-- One call of the flush loop. -/
structure FlushCall where
  /-- Failure set used by its drain passes. -/
  scope : ScopeId
  /-- Loop counter. -/
  pass : ℕ
  /-- Operations whose failure was recorded. -/
  errors : List ℕ
  /-- Suspension point. -/
  stage : FlushStage
  deriving DecidableEq

/-- Entries that failed in a scope, and whether it ran out of passes. -/
structure DrainScope where
  /-- Objects of the failed entries. -/
  failedEntries : List ℕ
  /-- Set once a flush of the scope did not quiesce. -/
  exhausted : Bool

/-- Memory of one store, its outstanding promises and its folder. -/
structure State where
  /-- Next unused identity of a promise, entry, timer or flush. -/
  fresh : ℕ
  /-- Debounced writes not flushed yet. -/
  pendingWrites : InsertionMap StoreKey PendingEntry
  /-- Bytes known to be durable, least recent first. -/
  durable : InsertionMap StoreKey Bytes
  /-- Keys whose last mutation never completed the barrier. -/
  uncertain : Finset StoreKey
  /-- Armed timers. -/
  timers : List TimerHandle
  /-- Promise chain of each key. -/
  chains : StoreKey → Chain
  /-- Admitted operations that have not settled. -/
  admitted : List ℕ
  /-- Settled promises. -/
  results : ℕ → Option Outcome
  /-- Every admission so far, oldest first. -/
  log : List Admission
  /-- Every flush so far. -/
  flushes : ℕ → Option FlushCall
  /-- Failure sets. -/
  scopes : ScopeId → DrainScope
  /-- Contents of each key's file. -/
  disk : StoreKey → Option Bytes
  /-- Barrier of each file's last mutation. -/
  barrier : StoreKey → FileBarrier

/-- Reported end of one I/O step. `failedAfterEffect` is a rename that took
effect although it reported a failure; elsewhere it is a plain failure. -/
inductive IoOutcome where
  | ok
  | enoent
  | eexist
  | failed
  | failedAfterEffect
  deriving DecidableEq

/-- Move the key to the most recent end and evict beyond the capacity. -/
def rememberDurable (s : State) (k : StoreKey) (value : Bytes) : State :=
  let moved := (s.durable.delete k).set k value
  {s with durable := if maxCacheEntries < moved.size then moved.dropOldest else moved}

/-- Disarm a timer handle; an absent or fired handle changes nothing. -/
def clearTimeout (s : State) (timer : Option TimerHandle) : State :=
  {s with timers := s.timers.filter fun live => some live ≠ timer}

/-- Arm a fresh timer and store the entry, as every caller does next. -/
def armTimer (s : State) (k : StoreKey) (entry : PendingEntry) : State :=
  let cleared := clearTimeout s entry.timer
  {cleared with
    timers := cleared.timers++[⟨s.fresh,k⟩]
    fresh := s.fresh+1
    pendingWrites := s.pendingWrites.set k {entry with timer := some ⟨s.fresh,k⟩}}

/-- The running promise settles and leaves its chain. -/
def settle (s : State) (k : StoreKey) (job : Job) (outcome : Outcome) : State :=
  {s with
    chains := update s.chains k ⟨none,(s.chains k).waiting⟩
    results := update s.results job.id (some outcome)
    admitted := s.admitted.filter (· ≠ job.id)}

/-- The running promise suspends on an I/O step. -/
def suspend (s : State) (k : StoreKey) (job : Job) (awaiting : Awaiting) : State :=
  {s with chains := update s.chains k ⟨some (job,awaiting),(s.chains k).waiting⟩}

/-- The bytes are already certified, or already queued with a timer. -/
def skipsWrite (s : State) (k : StoreKey) (incoming : Bytes) : Bool :=
  match s.pendingWrites.get k with
  | some pending => pending.value = incoming && pending.timer.isSome
  | none => s.durable.get k = some incoming

/-- Write path of a set, up to its first suspension. -/
def doSetLocked (s : State) (k : StoreKey) (job : Job) (incoming : Bytes) : State :=
  if skipsWrite s k incoming then settle s k job (.resolved none)
  else
    let timer := (s.pendingWrites.get k).bind PendingEntry.timer
    let cleared := clearTimeout s timer
    if critical k then
      suspend {cleared with pendingWrites := s.pendingWrites.delete k} k job
        (.writeTmp ⟨incoming,none⟩ 0)
    else
      let entry : PendingEntry := ⟨s.fresh,incoming,none⟩
      settle (armTimer {cleared with fresh := s.fresh+1} k entry) k job (.resolved none)

/-- Read path, up to its first suspension. -/
def doGetLocked (s : State) (k : StoreKey) (job : Job) : State :=
  match s.pendingWrites.get k with
  | some pending => settle s k job (.resolved (some pending.value))
  | none =>
    let known := if k ∈ s.uncertain then none else s.durable.get k
    match known with
    | some value => settle s k job (.resolved (some value))
    | none => suspend s k job (.readFile (k ∈ s.uncertain))

/-- Delete path, up to its unlink. -/
def doDeleteOne (s : State) (k : StoreKey) (job : Job) : State :=
  let prev : Captured := ⟨s.pendingWrites.get k,s.durable.get k,k ∈ s.uncertain⟩
  let cleared := clearTimeout s (prev.prevPending.bind PendingEntry.timer)
  suspend {cleared with
    pendingWrites := s.pendingWrites.delete k
    durable := s.durable.delete k} k job (.unlink prev)

/-- Reinstate what a failed delete captured, with a live timer. -/
def restoreDeleteState (s : State) (k : StoreKey) (prev : Captured) : State :=
  let remembered := match prev.prevDurable with
    | some value => rememberDurable s k value
    | none => s
  match prev.prevPending with
  | some entry => armTimer remembered k entry
  | none => remembered

/-- Whether an entry already failed in the scope of a flush. -/
def hasFailed (s : State) (scope : Option ScopeId) (entry : PendingEntry) : Bool :=
  match scope with
  | some id => decide (entry.object ∈ (s.scopes id).failedEntries)
  | none => false

/-- Record a failed entry in the scope of a flush. -/
def addFailed (s : State) (scope : Option ScopeId) (entry : PendingEntry) : State :=
  match scope with
  | some id =>
    let failed := (s.scopes id).failedEntries++[entry.object]
    {s with scopes := update s.scopes id ⟨failed,(s.scopes id).exhausted⟩}
  | none => s

/-- Flush of one pending key, up to its write. -/
def flushOne (s : State) (k : StoreKey) (job : Job) (scope : Option ScopeId) : State :=
  match s.pendingWrites.get k with
  | none => settle s k job (.resolved none)
  | some pending =>
    if hasFailed s scope pending then settle s k job (.resolved none)
    else
      let cleared := clearTimeout s pending.timer
      let entry : PendingEntry := {pending with timer := none}
      suspend {cleared with pendingWrites := s.pendingWrites.set k entry} k job
        (.writeTmp ⟨pending.value,some entry⟩ 0)

/-- Run a promise function up to its first suspension or to its end. -/
def startJob (s : State) (k : StoreKey) (job : Job) : State :=
  match job.op with
  | .call (.set value) => doSetLocked s k job value
  | .call .get => doGetLocked s k job
  | .call .delete => doDeleteOne s k job
  | .flushOne scope => flushOne s k job scope

/-- The rename takes effect: the file holds the new bytes, uncertified. -/
def renameEffect (s : State) (k : StoreKey) (write : Write) : State :=
  {s with
    disk := update s.disk k (some write.value)
    barrier := update s.barrier k .incomplete}

/-- The directory was synced: the key's last mutation is certified. -/
def certifyBarrier (s : State) (k : StoreKey) : State :=
  {s with barrier := update s.barrier k .complete, uncertain := s.uncertain.erase k}

/-- End of a write that completed the full barrier. -/
def certifyWrite (s : State) (k : StoreKey) (job : Job) (write : Write) : State :=
  let certified := rememberDurable (certifyBarrier s k) k write.value
  match write.entry with
  | none => settle certified k job (.resolved none)
  | some entry =>
    let dropped := match certified.pendingWrites.get k with
      | some current => if current.object = entry.object then
          {certified with pendingWrites := certified.pendingWrites.delete k} else certified
      | none => certified
    settle dropped k job (.resolved none)

/-- End of a write that failed; a flush retains its entry and records it. -/
def rejectWrite (s : State) (k : StoreKey) (job : Job) (write : Write) : State :=
  match job.op,write.entry with
  | .flushOne scope,some entry => settle (addFailed s scope entry) k job .rejected
  | _,_ => settle s k job .rejected

/-- Continue the suspended operation with the outcome of its I/O step. An
outcome the file system cannot report in this state is refused. -/
def ioJob (s : State) (k : StoreKey) (job : Job) : Awaiting → IoOutcome → Option State
  | .writeTmp write _,.ok => some (suspend s k job (.publishTmp write))
  | .writeTmp write attempt,.eexist =>
    if attempt+1 < maxTmpAttempts then some (suspend s k job (.writeTmp write (attempt+1)))
    else some (rejectWrite s k job write)
  | .writeTmp write _,_ => some (rejectWrite s k job write)
  | .publishTmp write,.ok => some (suspend (renameEffect s k write) k job (.syncDir write))
  | .publishTmp write,.failedAfterEffect =>
    some (suspend (renameEffect s k write) k job (.unlinkTmp write))
  | .publishTmp write,_ => some (suspend s k job (.unlinkTmp write))
  | .syncDir write,.ok => some (certifyWrite s k job write)
  | .syncDir write,_ => some (suspend s k job (.unlinkTmp write))
  | .unlinkTmp write,_ => some (rejectWrite {s with
      durable := s.durable.delete k
      uncertain := insert k s.uncertain} k job write)
  | .readFile keyUncertain,.ok =>
    match s.disk k with
    | some data =>
      let known := if keyUncertain then s else rememberDurable s k data
      some (settle known k job (.resolved (some data)))
    | none => some (settle s k job (.resolved none))
  | .readFile _,_ => some (settle s k job .rejected)
  | .unlink _,.ok =>
    if (s.disk k).isSome then some (suspend {s with
      disk := update s.disk k none
      barrier := update s.barrier k .incomplete} k job .syncUnlinked)
    else none
  | .unlink prev,.enoent =>
    if (s.disk k).isSome then none
    else if prev.wasUncertain then some (suspend s k job (.syncAbsent prev))
    else some (settle s k job (.resolved none))
  | .unlink prev,_ => some (settle (restoreDeleteState s k prev) k job .rejected)
  | .syncAbsent _,.ok => some (settle (certifyBarrier s k) k job (.resolved none))
  | .syncAbsent prev,_ => some (settle (restoreDeleteState s k prev) k job .rejected)
  | .syncUnlinked,.ok => some (settle (certifyBarrier s k) k job (.resolved none))
  | .syncUnlinked,_ => some (settle {s with uncertain := insert k s.uncertain} k job .rejected)

/-- Append a promise function to a key's chain. -/
def enqueue (s : State) (k : StoreKey) (op : JobOp) : State :=
  {s with
    fresh := s.fresh+1
    chains := update s.chains k ⟨(s.chains k).running,(s.chains k).waiting++[⟨s.fresh,op⟩]⟩}

/-- Admit one call: queue it and track it until it settles. -/
def withKeyLock (s : State) (k : StoreKey) (call : KeyCall) : State :=
  {enqueue s k (.call call) with
    admitted := s.admitted++[s.fresh]
    log := s.log++[⟨s.fresh,k,call⟩]}

/-- Admit the entries of one call synchronously and in order. -/
def withKeyLocks (s : State) (calls : List (StoreKey × KeyCall)) : State :=
  calls.foldl (fun s pair => withKeyLock s pair.1 pair.2) s

/-- Pending keys that have not failed in the scope, in enumeration order. -/
def eligibleKeys (s : State) (scope : ScopeId) : List StoreKey :=
  (s.pendingWrites.entries.filter fun pair => !hasFailed s (some scope) pair.2).map Prod.fst

/-- Queue a flush of each key and collect the promises. -/
def flushKeys (s : State) (scope : ScopeId) : List StoreKey → State × List ℕ
  | [] => (s,[])
  | k::rest =>
    let queued := flushKeys (enqueue s k (.flushOne (some scope))) scope rest
    (queued.1,s.fresh::queued.2)

/-- Update the record of one flush. -/
def setFlush (s : State) (f : ℕ) (call : FlushCall) : State :=
  {s with flushes := update s.flushes f (some call)}

/-- After the loop: report failures, then work that remains, then success. -/
def finishFlush (s : State) (f : ℕ) (call : FlushCall) : State :=
  if call.errors ≠ [] then setFlush s f {call with stage := .rejected}
  else if eligibleKeys s call.scope ≠ [] ∨ s.admitted ≠ [] then
    let failed := (s.scopes call.scope).failedEntries
    setFlush {s with scopes := update s.scopes call.scope ⟨failed,true⟩} f
      {call with stage := .rejected}
  else setFlush s f {call with stage := .resolved}

/-- Wait for the operations admitted so far. -/
def awaitBarrier (s : State) (f : ℕ) (call : FlushCall) : State :=
  setFlush s f {call with stage := .barrier s.admitted}

/-- Second half of a pass: queue a flush of each eligible key. Without any,
the loop ends, or continues with operations still outstanding. -/
def drainPending (s : State) (f : ℕ) (call : FlushCall) : State :=
  if eligibleKeys s call.scope = [] then
    if s.admitted = [] then finishFlush s f call
    else if call.pass+1 < flushMaxPasses then awaitBarrier s f {call with pass := call.pass+1}
    else finishFlush s f {call with pass := call.pass+1}
  else
    let queued := flushKeys s call.scope (eligibleKeys s call.scope)
    setFlush queued.1 f {call with stage := .draining queued.2}

/-- Head of the loop: wait for outstanding operations before draining. -/
def flushPass (s : State) (f : ℕ) (call : FlushCall) : State :=
  if call.pass < flushMaxPasses then
    if s.admitted = [] then drainPending s f call else awaitBarrier s f call
  else finishFlush s f call

/-- Start a flush in a scope. -/
def flushAll (s : State) (scope : ScopeId) : State :=
  let call : FlushCall := ⟨scope,0,[],.barrier []⟩
  let started := {s with fresh := s.fresh+1}
  if (s.scopes scope).exhausted then setFlush started s.fresh {call with stage := .rejected}
  else flushPass started s.fresh call

/-- Promises of a list that rejected. -/
def rejections (s : State) (ids : List ℕ) : List ℕ :=
  ids.filter fun id => decide (s.results id = some .rejected)

/-- Continue a flush once everything it waits for settled. -/
def resumeFlush (s : State) (f : ℕ) (call : FlushCall) : Option State :=
  match call.stage with
  | .barrier outstanding =>
    if ∀ id ∈ outstanding, s.results id ≠ none then
      some (drainPending s f {call with errors := call.errors++rejections s outstanding})
    else none
  | .draining operations =>
    if ∀ id ∈ operations, s.results id ≠ none then
      let failed := rejections s operations
      let recorded := {call with errors := call.errors++failed}
      if failed ≠ [] then some (finishFlush s f recorded)
      else some (flushPass s f {recorded with pass := call.pass+1})
    else none
  | _ => none

/-- Steps of the store and its environment. An admission covers set, get and
delete, and in order every entry of setMany, getMany and deleteMany. -/
inductive Action where
  | invoke (calls : List (StoreKey × KeyCall))
  | start (k : StoreKey)
  | io (k : StoreKey) (outcome : IoOutcome)
  | fire (timer : TimerHandle)
  | flush
  | drain (id : ℕ)
  | resume (flush : ℕ)

/-- Execute one step. -/
def step (s : State) : Action → Option State
  | .invoke calls => some (withKeyLocks s calls)
  | .start k =>
    match (s.chains k).running,(s.chains k).waiting with
    | none,job::rest => some (startJob {s with chains := update s.chains k ⟨none,rest⟩} k job)
    | _,_ => none
  | .io k outcome =>
    match (s.chains k).running with
    | some (job,awaiting) => ioJob s k job awaiting outcome
    | none => none
  | .fire timer =>
    let k := timer.key
    if timer ∉ s.timers ∨ (s.chains k).running = none ∧ (s.chains k).waiting ≠ [] then none
    else some (enqueue (clearTimeout s (some timer)) k (.flushOne none))
  | .flush => some (flushAll s (.own s.fresh))
  | .drain id => some (flushAll s (.drain id))
  | .resume f =>
    match s.flushes f with
    | some call => resumeFlush s f call
    | none => none

/-- A store just opened on a folder with arbitrary files. -/
def opened (disk : StoreKey → Option Bytes) : State where
  fresh := 0
  pendingWrites := .empty
  durable := .empty
  uncertain := ∅
  timers := []
  chains := fun _ => ⟨none,[]⟩
  admitted := []
  results := fun _ => none
  log := []
  flushes := fun _ => none
  scopes := fun _ => ⟨[],false⟩
  disk := disk
  barrier := fun _ => .asOpened

/-- States reachable from some opened folder. -/
abbrev ReachableState : State → Prop := Reachable step fun s => ∃ disk, s = opened disk

/-- What a read of the key returns when its file can be read. -/
def getResult (s : State) (k : StoreKey) : Option Bytes :=
  match s.pendingWrites.get k with
  | some pending => some pending.value
  | none =>
    match if k ∈ s.uncertain then none else s.durable.get k with
    | some value => some value
    | none => s.disk k

end Baileyrs.BridgeStore
