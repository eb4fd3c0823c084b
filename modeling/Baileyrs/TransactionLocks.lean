import Baileyrs.LabelledRuns
import Baileyrs.SignalDataTypes
import Baileyrs.WaitGraph

/-!
# Locks of the transaction capability

One map of mutexes serves the keys of top-level transactions and the types
fetched by reads inside a transaction. A transaction holds the mutex of its
key until its callback and its commit have settled, a read holds the mutex of
its type during one store call. Both queue first come, first served. A wait
cycle arises exactly when a callback awaits a read queued behind a transaction
that is its own or waits for it.
-/

namespace Baileyrs.TransactionLocks

open LabelledRuns WaitGraph Relation Function

/-- Calls queued for a mutex, in the order of `runExclusive`. -/
inductive Ticket where
  | transaction (t : ℕ)
  | get (t g : ℕ) (type : SignalDataType) (awaited : Bool)
  deriving DecidableEq

/-- Where a top-level transaction is. -/
inductive Phase where
  | waiting
  | running
  | settled
  | released
  deriving DecidableEq

/-- A top-level transaction. -/
structure Transaction where
  /-- Its key. -/
  key : String
  /-- The mutex it queued for. -/
  mutex : ℕ
  /-- Where it is. -/
  phase : Phase

/-- The transaction capability of one store. -/
structure State where
  /-- Next unused identity of a mutex, a transaction or a read. -/
  fresh : ℕ
  /-- Mutex of a key or type. -/
  txMutexes : String → Option ℕ
  /-- References to the mutex of a key. -/
  txMutexRefCounts : String → Option ℤ
  /-- Calls queued for a mutex, the running one first. -/
  queues : ℕ → List Ticket
  /-- Top-level transactions; their contexts outlive them. -/
  transactions : ℕ → Option Transaction
  /-- Ids cached in the context of a transaction. -/
  cache : ℕ → SignalDataType → List String

/-- Calls of the callers, of the callbacks and of the store. -/
inductive Action where
  | transaction (key : String)
  | start (t : ℕ)
  | nested (t : ℕ)
  | get (t : ℕ) (type : SignalDataType) (ids : List String)
  | set (t : ℕ) (type : SignalDataType) (ids : List String)
  | await (t g : ℕ)
  | storeGet (m : ℕ) (fetched : Option (List String))
  | finish (t : ℕ)
  | release (t : ℕ)

/-- Names every object has without caching anything under them. -/
def inherited : List String :=
  ["constructor","__defineGetter__","__defineSetter__","hasOwnProperty","__lookupGetter__",
    "__lookupSetter__","isPrototypeOf","propertyIsEnumerable","toString","valueOf","__proto__",
    "toLocaleString"]

/-- The mutex of a key, created on first use. -/
def getTxMutex (s : State) (key : String) : State × ℕ :=
  match s.txMutexes key with
  | some m => (s,m)
  | none => ({s with
      fresh := s.fresh+1
      txMutexes := update s.txMutexes key (some s.fresh)
      txMutexRefCounts := update s.txMutexRefCounts key (some 0)},s.fresh)

/-- One more reference to the mutex of a key. -/
def acquireTxMutexRef (s : State) (key : String) : State :=
  {s with txMutexRefCounts :=
    update s.txMutexRefCounts key (some ((s.txMutexRefCounts key).getD 0+1))}

/-- The mutex of a key exists and nobody holds or awaits it. -/
def isUnlocked (s : State) (key : String) : Bool :=
  match s.txMutexes key with
  | some m => (s.queues m).isEmpty
  | none => false

/-- One reference less; an unlocked mutex without references is dropped. -/
def releaseTxMutexRef (s : State) (key : String) : State :=
  let count := (s.txMutexRefCounts key).getD 1-1
  if count ≤ 0 ∧ isUnlocked s key then
    {s with
      txMutexes := update s.txMutexes key none
      txMutexRefCounts := update s.txMutexRefCounts key none}
  else {s with txMutexRefCounts := update s.txMutexRefCounts key (some count)}

/-- Join the queue of a mutex. -/
def runExclusive (s : State) (m : ℕ) (ticket : Ticket) : State :=
  {s with queues := update s.queues m (s.queues m++[ticket])}

/-- The call holding a mutex leaves it. -/
def unlock (s : State) (m : ℕ) : State :=
  {s with queues := update s.queues m (s.queues m).tail}

/-- A top-level transaction moves on. -/
def setPhase (s : State) (t : ℕ) (tx : Transaction) (phase : Phase) : State :=
  {s with transactions := update s.transactions t (some {tx with phase := phase})}

/-- A read of a context is awaited by its callback. -/
def markAwaited (t g : ℕ) : Ticket → Ticket
  | .transaction u => .transaction u
  | .get u h type awaited => .get u h type (awaited || u == t && h == g)

/-- A queued read is awaited by the callback of a transaction. -/
def Ticket.awaitedBy (t : ℕ) : Ticket → Bool
  | .transaction _ => false
  | .get u _ _ awaited => awaited && u == t

/-- The callback of a transaction awaits a queued read. -/
def awaiting (s : State) (t : ℕ) : Bool :=
  (List.range s.fresh).any fun m => (s.queues m).any (Ticket.awaitedBy t)

/-- The callback of a transaction was called. -/
def started (s : State) (t : ℕ) : Bool :=
  match s.transactions t with
  | some tx => tx.phase != .waiting
  | none => false

/-- Execute one step. -/
def step (s : State) : Action → Option State
  | .transaction key =>
    let (s,m) := getTxMutex s key
    let s := acquireTxMutexRef s key
    some (runExclusive {s with
      fresh := s.fresh+1
      transactions := update s.transactions s.fresh (some ⟨key,m,.waiting⟩)} m
      (.transaction s.fresh))
  | .start t =>
    match s.transactions t with
    | some tx =>
      if tx.phase = .waiting ∧ (s.queues tx.mutex).head? = some (.transaction t) then
        some (setPhase s t tx .running)
      else none
    | none => none
  | .nested t => if started s t then some s else none
  | .get t type ids =>
    if started s t then
      let missing := ids.filter fun id => !(s.cache t type).contains id && !inherited.contains id
      if missing = [] then some s
      else
        let (s,m) := getTxMutex s type.name
        some (runExclusive {s with fresh := s.fresh+1} m (.get t s.fresh type false))
    else none
  | .set t type ids =>
    if started s t then
      some {s with cache := update s.cache t (update (s.cache t) type (s.cache t type++ids))}
    else none
  | .await t g =>
    if started s t then some {s with queues := fun m => (s.queues m).map (markAwaited t g)}
    else none
  | .storeGet m fetched =>
    match (s.queues m).head? with
    | some (.get t _ type _) =>
      let ids := s.cache t type++fetched.getD []
      some (unlock {s with cache := update s.cache t (update (s.cache t) type ids)} m)
    | _ => none
  | .finish t =>
    match s.transactions t with
    | some tx =>
      if tx.phase = .running ∧ (s.queues tx.mutex).head? = some (.transaction t) ∧
          awaiting s t = false then
        some (unlock (setPhase s t tx .settled) tx.mutex)
      else none
    | none => none
  | .release t =>
    match s.transactions t with
    | some tx =>
      if tx.phase = .settled then some (releaseTxMutexRef (setPhase s t tx .released) tx.key)
      else none
    | none => none

/-- No transaction was called yet. -/
def idle : State where
  fresh := 0
  txMutexes := fun _ => none
  txMutexRefCounts := fun _ => none
  queues := fun _ => []
  transactions := fun _ => none
  cache := fun _ _ => []

/-- Transaction that waits for a queued call. -/
def Ticket.waiter : Ticket → Option ℕ
  | .transaction t => some t
  | .get t _ _ awaited => if awaited then some t else none

/-- Transaction that has to settle before a queued call leaves the queue. -/
def Ticket.holder : Ticket → Option ℕ
  | .transaction t => some t
  | .get _ _ _ _ => none

/-- A transaction waits for a mutex that another one, or itself, releases. -/
def WaitsFor (s : State) : ℕ → ℕ → Prop := Waits Ticket.waiter Ticket.holder s.queues

/-- No transaction waits for itself, directly or through others. -/
def NoDeadlock (s : State) : Prop := Acyclic (WaitsFor s)

/-- A transaction is ahead of a read in the queue of its mutex. -/
def AheadOfGet (s : State) (t g u : ℕ) : Prop :=
  ∃ m, Ahead Ticket.holder (s.queues m) (fun ticket => ∃ type, ticket = .get t g type false) u

/-- A callback awaits a read only when no transaction ahead of the read is
its own or waits for it. -/
def Safe (s : State) : Action → Prop
  | .await t g => ∀ u, AheadOfGet s t g u → ¬ReflTransGen (WaitsFor s) u t
  | _ => True

/-- Steps by which queued calls settle. -/
def Action.Settles : Action → Prop
  | .start _ => True
  | .storeGet _ _ => True
  | .finish _ => True
  | _ => False

/-- Queues and transactions agree. -/
structure QueuesOk (s : State) : Prop where
  /-- Mutexes in use were created. -/
  mutexes : ∀ m, s.queues m ≠ [] → m < s.fresh
  /-- So were those of keys and types. -/
  named : ∀ key m, s.txMutexes key = some m → m < s.fresh
  /-- A queued transaction has not settled. -/
  queued : ∀ m t, .transaction t ∈ s.queues m → t < s.fresh ∧ ∃ tx, s.transactions t = some tx ∧
    tx.mutex = m ∧ (tx.phase = .waiting ∨ tx.phase = .running)
  /-- It is queued once. -/
  once : ∀ m, ((s.queues m).filterMap Ticket.holder).Nodup

theorem holder_eq_some {ticket : Ticket} {t : ℕ} : ticket.holder = some t ↔ ticket = .transaction t := by
  cases ticket with
  | transaction u => simp [Ticket.holder]
  | get u g type awaited => simp [Ticket.holder]

theorem holder_markAwaited (t g : ℕ) (ticket : Ticket) : (markAwaited t g ticket).holder = ticket.holder := by
  cases ticket <;> rfl

theorem mem_holders {queue : List Ticket} {t : ℕ} : t ∈ queue.filterMap Ticket.holder ↔ .transaction t ∈ queue := by
  simp [List.mem_filterMap,holder_eq_some]

theorem mem_unlock {s : State} {m k : ℕ} {ticket : Ticket} (h : ticket ∈ (unlock s m).queues k) :
    ticket ∈ s.queues k := by
  unfold unlock at h
  by_cases hk : k = m
  · subst hk
    simp only [update_self] at h
    exact List.mem_of_mem_tail h
  · simp only [update_of_ne hk] at h
    exact h

theorem mem_runExclusive {s : State} {m k : ℕ} {ticket last : Ticket}
    (h : ticket ∈ (runExclusive s m last).queues k) : ticket ∈ s.queues k ∨ k = m ∧ ticket = last := by
  unfold runExclusive at h
  by_cases hk : k = m
  · subst hk
    simp only [update_self] at h
    rcases List.mem_append.mp h with hold | hnew
    · exact .inl hold
    · exact .inr ⟨rfl,List.mem_singleton.mp hnew⟩
  · simp only [update_of_ne hk] at h
    exact .inl h

/-- A call that joins a queue leaves the mutexes numbered. -/
theorem QueuesOk.numbered_runExclusive {s : State} {m : ℕ} (h : QueuesOk s) (hm : m < s.fresh) (taken : State)
    (last : Ticket) (hqueues : taken.queues = s.queues) :
    ∀ k, (runExclusive taken m last).queues k ≠ [] → k < s.fresh+1 := by
  intro k hne
  by_cases hk : k = m
  · rw [hk]
    exact Nat.lt_succ_of_lt hm
  · unfold runExclusive at hne
    simp only [update_of_ne hk] at hne
    rw [hqueues] at hne
    exact Nat.lt_succ_of_lt (h.mutexes k hne)

/-- A new transaction joins the queue of its mutex. -/
theorem QueuesOk.transaction {s : State} {m : ℕ} {key : String} (h : QueuesOk s)
    (hm : m < s.fresh) :
    QueuesOk (runExclusive {s with
      fresh := s.fresh+1
      transactions := update s.transactions s.fresh (some ⟨key,m,.waiting⟩)} m
      (.transaction s.fresh)) := by
  constructor
  · exact h.numbered_runExclusive hm _ _ rfl
  · exact fun other k hother => Nat.lt_succ_of_lt (h.named other k hother)
  · intro k t hqueued
    rcases mem_runExclusive hqueued with hold | ⟨rfl,hnew⟩
    · obtain ⟨hlt,tx,htx,hfacts⟩ := h.queued k t hold
      refine ⟨Nat.lt_succ_of_lt hlt,tx,?_,hfacts⟩
      exact (update_of_ne (Nat.ne_of_lt hlt) _ _).trans htx
    · cases hnew
      exact ⟨Nat.lt_succ_self _,_,update_self _ _ _,rfl,.inl rfl⟩
  · intro k
    unfold runExclusive
    by_cases hk : k = m
    · subst hk
      simp only [update_self,List.filterMap_append]
      refine List.nodup_append.mpr ⟨h.once k,List.nodup_singleton _,?_⟩
      intro t ht u hu heq
      have hlt := (h.queued k t (mem_holders.mp ht)).1
      rw [heq,List.mem_singleton.mp hu] at hlt
      exact Nat.lt_irrefl _ hlt
    · simp only [update_of_ne hk]
      exact h.once k

/-- So does a read of a transaction. -/
theorem QueuesOk.get {s : State} {m t g : ℕ} {type : SignalDataType} (h : QueuesOk s) (hm : m < s.fresh) :
    QueuesOk (runExclusive {s with fresh := s.fresh+1} m (.get t g type false)) := by
  constructor
  · exact h.numbered_runExclusive hm _ _ rfl
  · exact fun other k hother => Nat.lt_succ_of_lt (h.named other k hother)
  · intro k u hqueued
    rcases mem_runExclusive hqueued with hold | ⟨_,hnew⟩
    · obtain ⟨hlt,htx⟩ := h.queued k u hold
      exact ⟨Nat.lt_succ_of_lt hlt,htx⟩
    · cases hnew
  · intro k
    unfold runExclusive
    by_cases hk : k = m
    · subst hk
      simp only [update_self,List.filterMap_append]
      exact List.append_nil _ ▸ h.once k
    · simp only [update_of_ne hk]
      exact h.once k

/-- A queue without its running call still agrees, when a transaction that
leaves has settled. -/
theorem QueuesOk.leave {s : State} {m : ℕ} (h : QueuesOk s) (transactions : ℕ → Option Transaction)
    (hother : ∀ k t, .transaction t ∈ (unlock s m).queues k → transactions t = s.transactions t) :
    QueuesOk (unlock {s with transactions := transactions} m) := by
  constructor
  · intro k hne
    refine h.mutexes k fun hnil => hne ?_
    refine List.eq_nil_iff_forall_not_mem.mpr fun ticket hm => ?_
    have hold : ticket ∈ s.queues k := mem_unlock hm
    rw [hnil] at hold
    cases hold
  · exact h.named
  · intro k t hqueued
    obtain ⟨hlt,tx,htx,hfacts⟩ := h.queued k t (mem_unlock hqueued)
    exact ⟨hlt,tx,(hother k t hqueued).trans htx,hfacts⟩
  · intro k
    have htail : ((unlock s m).queues k).Sublist (s.queues k) := by
      unfold unlock
      by_cases hk : k = m
      · subst hk
        simp only [update_self]
        exact List.tail_sublist _
      · simp only [update_of_ne hk]
        exact List.Sublist.refl _
    exact (h.once k).sublist (htail.filterMap _)

/-- A transaction moves on without leaving its queue. -/
theorem QueuesOk.moved {s : State} {t : ℕ} {tx : Transaction} {phase : Phase} (h : QueuesOk s)
    (htx : s.transactions t = some tx) (hphase : phase = .running ∨ ∀ m, .transaction t ∉ s.queues m) :
    QueuesOk (setPhase s t tx phase) := by
  constructor
  · exact h.mutexes
  · exact h.named
  · intro m u hqueued
    obtain ⟨hlt,old,hold,hmutex,hwas⟩ := h.queued m u hqueued
    by_cases hu : u = t
    · subst hu
      rcases hphase with hrunning | hgone
      · rw [hold] at htx
        cases htx
        exact ⟨hlt,_,update_self _ _ _,hmutex,.inr hrunning⟩
      · exact absurd hqueued (hgone m)
    · exact ⟨hlt,old,(update_of_ne hu _ _).trans hold,hmutex,hwas⟩
  · exact h.once

/-- Marking awaited reads keeps queues and transactions in agreement. -/
theorem QueuesOk.await {s : State} (h : QueuesOk s) (t g : ℕ) :
    QueuesOk {s with queues := fun m => (s.queues m).map (markAwaited t g)} := by
  have hmem : ∀ m u, .transaction u ∈ (s.queues m).map (markAwaited t g) →
      .transaction u ∈ s.queues m := by
    intro m u hqueued
    obtain ⟨ticket,hm,heq⟩ := List.mem_map.mp hqueued
    cases ticket with
    | transaction v => exact heq ▸ hm
    | get v k type awaited => cases heq
  constructor
  · intro m hne
    exact h.mutexes m fun hnil => hne (by simp [hnil])
  · exact h.named
  · exact fun m u hqueued => h.queued m u (hmem m u hqueued)
  · intro m
    have hsame : ((s.queues m).map (markAwaited t g)).filterMap Ticket.holder =
        (s.queues m).filterMap Ticket.holder := by
      rw [List.filterMap_map]
      congr 1
      exact funext (holder_markAwaited t g)
    rw [hsame]
    exact h.once m

/-- A transaction that starts was waiting at the front of its queue. -/
theorem step_start {s s' : State} {t : ℕ} (hs : step s (.start t) = some s') : ∃ tx, s.transactions t = some tx ∧
      (tx.phase = .waiting ∧ (s.queues tx.mutex).head? = some (.transaction t)) ∧ s' = setPhase s t tx .running := by
  simp only [step] at hs
  cases htx : s.transactions t with
  | none =>
    simp only [htx] at hs
    cases hs
  | some tx =>
    simp only [htx] at hs
    split at hs
    · rename_i hready
      cases hs
      exact ⟨tx,rfl,hready,rfl⟩
    · cases hs

/-- A transaction that finishes was running at the front of its queue and awaits nothing. -/
theorem step_finish {s s' : State} {t : ℕ} (hs : step s (.finish t) = some s') : ∃ tx, s.transactions t = some tx ∧
      (tx.phase = .running ∧ (s.queues tx.mutex).head? = some (.transaction t) ∧ awaiting s t = false) ∧
      s' = unlock (setPhase s t tx .settled) tx.mutex := by
  simp only [step] at hs
  cases htx : s.transactions t with
  | none =>
    simp only [htx] at hs
    cases hs
  | some tx =>
    simp only [htx] at hs
    split at hs
    · rename_i hready
      cases hs
      exact ⟨tx,rfl,hready,rfl⟩
    · cases hs

/-- A transaction that releases its reference has settled. -/
theorem step_release {s s' : State} {t : ℕ} (hs : step s (.release t) = some s') :
    ∃ tx, s.transactions t = some tx ∧ tx.phase = .settled ∧
      s' = releaseTxMutexRef (setPhase s t tx .released) tx.key := by
  simp only [step] at hs
  cases htx : s.transactions t with
  | none =>
    simp only [htx] at hs
    cases hs
  | some tx =>
    simp only [htx] at hs
    split at hs
    · rename_i hphase
      cases hs
      exact ⟨tx,rfl,hphase,rfl⟩
    · cases hs

/-- Leaving a queue at its front closes no cycle. -/
theorem NoDeadlock.unlock {s : State} (h : NoDeadlock s) (m : ℕ) : NoDeadlock (TransactionLocks.unlock s m) :=
  Acyclic.mono h fun _ _ hwaits => Waits.of_tail hwaits

/-- Neither does a read that nobody awaits yet. -/
theorem NoDeadlock.get {s : State} {m t g : ℕ} {type : SignalDataType} (h : NoDeadlock s) :
    NoDeadlock (runExclusive s m (.get t g type false)) := by
  refine Acyclic.mono h fun a b hwaits => ?_
  rcases waits_append.mp hwaits with hold | ⟨hnone,_⟩
  · exact hold
  · cases hnone

/-- A new transaction waits for others, and nobody waits for it. -/
theorem NoDeadlock.transaction {s : State} {m : ℕ} (hq : QueuesOk s) (h : NoDeadlock s) :
    NoDeadlock (runExclusive s m (.transaction s.fresh)) := by
  have hqueued : ∀ k ticket, ticket ∈ s.queues k → ticket.holder ≠ some s.fresh := by
    intro k ticket hm hholder
    rw [holder_eq_some.mp hholder] at hm
    exact Nat.lt_irrefl _ (hq.queued k _ hm).1
  have hnew := acyclic_extend_new s.fresh
    (fun u => ∃ ahead ∈ s.queues m, ahead.holder = some u) h ?_ ?_
  · refine Acyclic.mono hnew fun a b hwaits => ?_
    rcases waits_append.mp hwaits with hold | ⟨hself,hahead⟩
    · exact .inl hold
    · exact .inr ⟨(Option.some.inj hself).symm,hahead⟩
  · rintro a ⟨k,_,_,ahead,_,_,hi,hholder,_⟩
    exact hqueued k ahead (List.mem_of_getElem? hi) hholder
  · rintro ⟨ahead,hm,hholder⟩
    exact hqueued m ahead hm hholder

/-- Without a wait cycle, some queued call can settle. -/
theorem NoDeadlock.progress {s : State} (hq : QueuesOk s) (h : NoDeadlock s) {m : ℕ}
    (hm : s.queues m ≠ []) : ∃ a, Action.Settles a ∧ (step s a).isSome = true := by
  have hfront : ∀ k, s.queues k ≠ [] → (∃ a, Action.Settles a ∧ (step s a).isSome = true) ∨
      ∃ t, (s.queues k).head? = some (.transaction t) := by
    intro k hk
    obtain ⟨ticket,rest,hcons⟩ := List.exists_cons_of_ne_nil hk
    have hhead : (s.queues k).head? = some ticket := by rw [hcons]; rfl
    cases ticket with
    | transaction t => exact .inr ⟨t,hhead⟩
    | get t g type awaited =>
      refine .inl ⟨.storeGet k none,trivial,?_⟩
      simp only [step,hhead,Option.isSome_some]
  by_cases hstore : ∃ a, Action.Settles a ∧ (step s a).isSome = true
  · exact hstore
  · have hfront' : ∀ k, s.queues k ≠ [] → ∃ t, (s.queues k).head? = some (.transaction t) :=
      fun k hk => (hfront k hk).resolve_left hstore
    obtain ⟨t₀,ht₀⟩ := hfront' m hm
    have hbound : ∀ t, (∃ k, (s.queues k).head? = some (.transaction t)) → t < s.fresh :=
      fun t ⟨k,hk⟩ => (hq.queued k t (List.mem_of_head? hk)).1
    obtain ⟨t,⟨k,hk⟩,hfree⟩ := Acyclic.exists_free h hbound ⟨m,ht₀⟩
    obtain ⟨_,tx,htx,rfl,hphase⟩ := hq.queued k t (List.mem_of_head? hk)
    rcases hphase with hphase | hphase
    · refine ⟨.start t,trivial,?_⟩
      simp only [step,htx,if_pos (And.intro hphase hk),Option.isSome_some]
    · have hidle : awaiting s t = false := by
        refine Bool.eq_false_iff.mpr fun hawaits => ?_
        obtain ⟨k',_,hany⟩ := List.any_eq_true.mp hawaits
        obtain ⟨ticket,hmem,hby⟩ := List.any_eq_true.mp hany
        obtain ⟨u,hu⟩ := hfront' k' (List.ne_nil_of_mem hmem)
        obtain ⟨rest,hrest⟩ := List.head?_eq_some_iff.mp hu
        cases ticket with
        | transaction v => cases hby
        | get v g type awaited =>
          have hmine : awaited = true ∧ v = t := by
            simpa [Ticket.awaitedBy] using hby
          rw [hrest] at hmem
          rcases List.mem_cons.mp hmem with hcase | hlater
          · cases hcase
          · obtain ⟨j,hj⟩ := List.getElem?_of_mem hlater
            refine hfree u ⟨k',hu⟩ ⟨k',0,j+1,.transaction u,.get v g type awaited,Nat.succ_pos j,
              ?_,rfl,?_,?_⟩
            · rw [hrest]
              rfl
            · rw [hrest]
              exact hj
            · simp [Ticket.waiter,hmine]
      refine ⟨.finish t,trivial,?_⟩
      simp only [step,htx,if_pos (And.intro hphase (And.intro hk hidle)),Option.isSome_some]

end Baileyrs.TransactionLocks
