import Baileyrs.KeyedMutex
import Baileyrs.TransactionLocks

/-!
# Order of tasks with one key

The map of mutexes of the transaction capability is a counted registry of queued
locks, and so is that of the keyed mutex. Reads inside a transaction add mutexes to
it and queue for them without a reference, which neither reorders the transactions
nor gives a key a second mutex.
-/

namespace Baileyrs.TransactionLocks

open LabelledRuns Function
open LockRegistry (Job View Orderly Grows Refers arrive move)

/-- Where a task of the registry is. -/
def Phase.task : Phase → LockRegistry.Phase
  | .waiting => .waiting
  | .running => .running
  | .settled => .settled
  | .released => .released

/-- A transaction as a task of a registry. -/
def Transaction.task (tx : Transaction) : Job String := ⟨tx.key,tx.mutex,tx.phase.task⟩

/-- The state as a registry; reads are left out of its queues. -/
def view (s : State) : View String where
  registry := s.txMutexes
  references := fun key => (s.txMutexRefCounts key).getD 0
  tasks := fun t => (s.transactions t).map Transaction.task
  queue := fun m => (s.queues m).filterMap Ticket.holder

/-- The registry is orderly and transactions were numbered. -/
structure Turns (s : State) : Prop where
  /-- It is orderly. -/
  orderly : Orderly (view s)
  /-- They were numbered. -/
  numbered : ∀ t tx, s.transactions t = some tx → t < s.fresh

theorem view_tasks {s : State} {t : ℕ} {task : Job String} :
    (view s).tasks t = some task ↔ ∃ tx, s.transactions t = some tx ∧ tx.task = task := by
  simp [view]

theorem task_waiting {phase : Phase} : phase.task = .waiting ↔ phase = .waiting := by
  cases phase <;> simp [Phase.task]

theorem task_running {phase : Phase} : phase.task = .running ↔ phase = .running := by
  cases phase <;> simp [Phase.task]

theorem task_settled {phase : Phase} : phase.task = .settled ↔ phase = .settled := by
  cases phase <;> simp [Phase.task]

theorem task_released {phase : Phase} : phase.task = .released ↔ phase = .released := by
  cases phase <;> simp [Phase.task]

/-- A key without a mutex has no references. -/
theorem Turns.references_none {s : State} (h : Turns s) {key : String}
    (hnone : s.txMutexes key = none) : (s.txMutexRefCounts key).getD 0 = 0 := by
  rcases h.orderly.counted key with ⟨users,_,hmem,hcount⟩
  have hempty : users = [] := by
    refine List.eq_nil_iff_forall_not_mem.mpr ?_
    intro t ht
    rcases (hmem t).mp ht with ⟨task,htask,hkey,hphase⟩
    have hshared := h.orderly.shared t task htask hphase
    rw [hkey] at hshared
    change s.txMutexes key = some task.lock at hshared
    rw [hnone] at hshared
    cases hshared
  rw [hempty] at hcount
  exact hcount

/-- Looking up a mutex keeps the turns and finds it. -/
theorem Turns.getTxMutex {s : State} (h : Turns s) (key : String) : Turns (getTxMutex s key).1 ∧
      (getTxMutex s key).1.txMutexes key = some (getTxMutex s key).2 := by
  unfold TransactionLocks.getTxMutex
  cases hm : s.txMutexes key with
  | some m => exact ⟨h,hm⟩
  | none =>
    refine ⟨⟨h.orderly.grow rfl rfl ?_ ?_,?_⟩,update_self _ _ _⟩
    · funext other
      change (update s.txMutexRefCounts key (some 0) other).getD 0 =
        (s.txMutexRefCounts other).getD 0
      by_cases hkey : other = key
      · subst hkey
        rw [update_self,h.references_none hm]
        rfl
      · rw [update_of_ne hkey]
    · intro other m hother
      have hne : other ≠ key := by
        intro heq
        change s.txMutexes other = some m at hother
        rw [heq,hm] at hother
        cases hother
      exact (update_of_ne hne _ _).trans hother
    · intro t tx htx
      have hless := h.numbered t tx htx
      change t < s.fresh+1
      omega

/-- A transaction that counts its reference and queues is an arrival. -/
theorem view_transaction {s : State} {key : String} {m : ℕ} (hm : s.txMutexes key = some m) :
    view (runExclusive {acquireTxMutexRef s key with
      fresh := s.fresh+1
      transactions := update s.transactions s.fresh (some ⟨key,m,.waiting⟩)} m
      (.transaction s.fresh)) = arrive (view s) key m s.fresh := by
  have hregistry : update s.txMutexes key (some m) = s.txMutexes := by
    rw [← hm]
    exact update_eq_self key s.txMutexes
  have hreferences : (fun other => ((acquireTxMutexRef s key).txMutexRefCounts other).getD 0) =
      update (fun other => (s.txMutexRefCounts other).getD 0) key
        ((s.txMutexRefCounts key).getD 0+1) := by
    funext other
    by_cases hkey : other = key
    · subst hkey
      simp [acquireTxMutexRef]
    · simp [acquireTxMutexRef,hkey]
  have htasks : (fun t => (update s.transactions s.fresh
      (some ⟨key,m,.waiting⟩) t).map Transaction.task) =
      update (fun t => (s.transactions t).map Transaction.task) s.fresh
        (some ⟨key,m,.waiting⟩) := by
    funext t
    by_cases ht : t = s.fresh
    · subst ht
      simp [Transaction.task,Phase.task]
    · simp [ht]
  have hqueue : (fun k => (update s.queues m (s.queues m++[.transaction s.fresh]) k).filterMap
      Ticket.holder) = update (fun k => (s.queues k).filterMap Ticket.holder) m
        ((s.queues m).filterMap Ticket.holder++[s.fresh]) := by
    funext k
    by_cases hk : k = m
    · subst hk
      simp [Ticket.holder]
    · simp [hk]
  unfold view arrive
  dsimp only [runExclusive]
  rw [hreferences,htasks,hregistry]
  dsimp only [acquireTxMutexRef]
  rw [hqueue]

/-- A moved transaction is a moved task. -/
theorem view_setPhase {s : State} {t : ℕ} {tx : Transaction} {phase : Phase} :
    view (setPhase s t tx phase) = move (view s) t tx.task phase.task := by
  have htasks : (fun u => ((setPhase s t tx phase).transactions u).map Transaction.task) =
      update (fun u => (s.transactions u).map Transaction.task) t
        (some {tx.task with phase := phase.task}) := by
    funext u
    by_cases hut : u = t
    · subst hut
      simp [setPhase,Transaction.task]
    · simp [setPhase,hut]
  unfold view move
  rw [htasks]
  rfl

/-- Moving a transaction keeps its number. -/
theorem Turns.numbered_setPhase {s : State} (h : Turns s) {t : ℕ} {tx : Transaction}
    {phase : Phase} (htx : s.transactions t = some tx) (u : ℕ) (other : Transaction)
    (hu : (setPhase s t tx phase).transactions u = some other) : u < s.fresh := by
  by_cases hut : u = t
  · rw [hut]
    exact h.numbered t tx htx
  · change update s.transactions t _ u = some other at hu
    rw [update_of_ne hut] at hu
    exact h.numbered u other hu

/-- Steps that queue, mark or serve reads change nothing in the registry. -/
theorem Turns.of_holders {s next : State} (h : Turns s) (hmutexes : next.txMutexes = s.txMutexes)
    (hcounts : next.txMutexRefCounts = s.txMutexRefCounts)
    (htransactions : next.transactions = s.transactions) (hfresh : s.fresh ≤ next.fresh)
    (hholders : ∀ m, (next.queues m).filterMap Ticket.holder = (s.queues m).filterMap Ticket.holder) : Turns next := by
  have hview : view next = view s := by
    unfold view
    rw [hmutexes,hcounts,htransactions,funext hholders]
  refine ⟨?_,?_⟩
  · rw [hview]
    exact h.orderly
  · intro t tx htx
    rw [htransactions] at htx
    have hless := h.numbered t tx htx
    omega

/-- The front of a queue leaves it. -/
theorem holders_unlock {s : State} {m : ℕ} {ticket : Ticket}
    (hhead : (s.queues m).head? = some ticket) (k : ℕ) : ((unlock s m).queues k).filterMap Ticket.holder =
      if k = m ∧ ticket.holder ≠ none then ((s.queues m).filterMap Ticket.holder).tail
      else (s.queues k).filterMap Ticket.holder := by
  rcases List.head?_eq_some_iff.mp hhead with ⟨rest,hrest⟩
  by_cases hk : k = m
  · subst hk
    cases ticket with
    | transaction t => simp [unlock,hrest,Ticket.holder]
    | get t g type awaited =>
      rw [if_neg (by simp [Ticket.holder]),hrest,List.filterMap_cons_none rfl]
      simp [unlock,hrest]
  · simp [unlock,hk]

/-- The first transaction of a queue is the first task. -/
theorem head_holders {s : State} {m t : ℕ} (hhead : (s.queues m).head? = some (.transaction t)) :
    ((view s).queue m).head? = some t := by
  rcases List.head?_eq_some_iff.mp hhead with ⟨rest,hrest⟩
  simp [view,hrest,Ticket.holder]

/-- The mutex is dropped with its count, or only the count goes down. -/
theorem releaseTxMutexRef_cases (s : State) (key : String) :
    (s.txMutexRefCounts key).getD 1-1 ≤ 0 ∧ releaseTxMutexRef s key =
        ⟨s.fresh,update s.txMutexes key none,update s.txMutexRefCounts key none,s.queues,
          s.transactions,s.cache⟩ ∨ releaseTxMutexRef s key = ⟨s.fresh,s.txMutexes,update s.txMutexRefCounts key
          (some ((s.txMutexRefCounts key).getD 1-1)),s.queues,s.transactions,s.cache⟩ := by
  unfold releaseTxMutexRef
  dsimp only
  split_ifs with hdrops
  · exact .inl ⟨hdrops.1,rfl⟩
  · exact .inr rfl

/-- A settled transaction has its reference counted. -/
theorem Turns.counted {s : State} (h : Turns s) {t : ℕ} {tx : Transaction}
    (htx : s.transactions t = some tx) (hphase : tx.phase = .settled) :
    ∃ count, s.txMutexRefCounts tx.key = some count ∧ 0 < count := by
  rcases h.orderly.counted tx.key with ⟨users,_,hmem,hcount⟩
  have hrefers : Refers (view s) tx.key t :=
    ⟨tx.task,view_tasks.mpr ⟨tx,htx,rfl⟩,rfl,by simp [Transaction.task,hphase,Phase.task]⟩
  have hpositive := List.length_pos_of_mem ((hmem t).mpr hrefers)
  change (s.txMutexRefCounts tx.key).getD 0 = users.length at hcount
  cases hcounts : s.txMutexRefCounts tx.key with
  | none =>
    rw [hcounts,Option.getD_none] at hcount
    omega
  | some count =>
    rw [hcounts,Option.getD_some] at hcount
    refine ⟨count,rfl,?_⟩
    omega

/-- A reference given back is a release. -/
theorem Turns.view_release {s : State} (h : Turns s) {t : ℕ} {tx : Transaction}
    (htx : s.transactions t = some tx) (hphase : tx.phase = .settled) :
    ∃ drops, (drops = true → (view s).references tx.key-1 ≤ 0) ∧
      view (releaseTxMutexRef (setPhase s t tx .released) tx.key) = LockRegistry.release (view s) t tx.task drops := by
  rcases h.counted htx hphase with ⟨count,hcount,hpositive⟩
  have hbefore : (setPhase s t tx .released).txMutexRefCounts tx.key = some count := hcount
  have hview : (view s).references tx.key = count := by
    change (s.txMutexRefCounts tx.key).getD 0 = count
    rw [hcount,Option.getD_some]
  have hreferences : ∀ left : Option ℤ, left.getD 0 = count-1 →
      (fun other => (update s.txMutexRefCounts tx.key left other).getD 0) =
        update (fun other => (s.txMutexRefCounts other).getD 0) tx.key (count-1) := by
    intro left hleft
    funext other
    by_cases hkey : other = tx.key
    · subst hkey
      rw [update_self,update_self,hleft]
    · rw [update_of_ne hkey,update_of_ne hkey]
  have hmove := @view_setPhase s t tx .released
  rcases releaseTxMutexRef_cases (setPhase s t tx .released) tx.key with ⟨hzero,hnext⟩ | hnext
  · rw [hbefore,Option.getD_some] at hzero
    refine ⟨true,?_,?_⟩
    · intro _
      rw [hview]
      exact hzero
    · rw [hnext]
      unfold LockRegistry.release
      change View.mk _ (fun other => (update s.txMutexRefCounts tx.key none other).getD 0)
        (view (setPhase s t tx .released)).tasks _ = _
      rw [hmove,hreferences none (by simp; omega)]
      change _ = View.mk _ (update _ tx.key ((view s).references tx.key-1)) _ _
      rw [hview]
      rfl
  · refine ⟨false,?_,?_⟩
    · intro hfalse
      cases hfalse
    · rw [hnext,hbefore]
      unfold LockRegistry.release
      change View.mk _ (fun other => (update s.txMutexRefCounts tx.key
        (some (count-1)) other).getD 0) (view (setPhase s t tx .released)).tasks _ = _
      rw [hmove,hreferences (some (count-1)) rfl]
      change _ = View.mk _ (update _ tx.key ((view s).references tx.key-1)) _ _
      rw [hview]
      rfl

/-- Transactions only arrive, later than those before them. -/
def Grown (s next : State) : Prop := Grows (view s) (view next)

/-- Every step keeps the turns. -/
theorem step_turns {s next : State} {a : Action} (h : Turns s) (hs : step s a = some next) :
    Turns next ∧ Grown s next := by
  cases a with
  | transaction key =>
    have hfound := h.getTxMutex key
    have hlater : ∀ t task, (view (getTxMutex s key).1).tasks t = some task →
        t < (getTxMutex s key).1.fresh := by
      intro t task ht
      rcases view_tasks.mp ht with ⟨tx,htx,_⟩
      exact hfound.1.numbered t tx htx
    have hview := view_transaction hfound.2
    have hsame : (view (getTxMutex s key).1).tasks = (view s).tasks := by
      unfold TransactionLocks.getTxMutex
      split <;> rfl
    have hgrows := (Grows.of_eq hsame).trans
      (Grows.arrive key (getTxMutex s key).2 hlater)
    cases hs
    refine ⟨⟨?_,?_⟩,?_⟩
    · exact hview ▸ hfound.1.orderly.arrive (.inl hfound.2) hlater
    · intro t tx htx
      change update (getTxMutex s key).1.transactions (getTxMutex s key).1.fresh _ t = some tx
        at htx
      change t < (getTxMutex s key).1.fresh+1
      by_cases ht : t = (getTxMutex s key).1.fresh
      · omega
      · rw [update_of_ne ht] at htx
        have hless := hfound.1.numbered t tx htx
        omega
    · unfold Grown
      exact hview ▸ hgrows
  | start t =>
    obtain ⟨tx,htx,hready,rfl⟩ := step_start hs
    have htask : (view s).tasks t = some tx.task := view_tasks.mpr ⟨tx,htx,rfl⟩
    refine ⟨⟨?_,h.numbered_setPhase htx⟩,?_⟩
    · rw [view_setPhase]
      exact h.orderly.start htask (task_waiting.mpr hready.1) (head_holders hready.2)
    · exact Grows.move htask (congrArg View.tasks view_setPhase)
  | nested t =>
    simp only [step] at hs
    split_ifs at hs
    cases hs
    exact ⟨h,Grows.refl _⟩
  | get t type ids =>
    simp only [step] at hs
    split_ifs at hs
    · cases hs
      exact ⟨h,Grows.refl _⟩
    · have hfound := (h.getTxMutex type.name).1
      have hsame : (view (getTxMutex s type.name).1).tasks = (view s).tasks := by
        unfold TransactionLocks.getTxMutex
        split <;> rfl
      cases hs
      refine ⟨?_,Grows.of_eq hsame⟩
      refine hfound.of_holders rfl rfl rfl (Nat.le_succ _) ?_
      intro m
      by_cases hm : m = (getTxMutex s type.name).2
      · subst hm
        simp [runExclusive,Ticket.holder]
      · simp [runExclusive,hm]
  | set t type ids =>
    simp only [step] at hs
    split_ifs at hs
    cases hs
    exact ⟨h.of_holders rfl rfl rfl (Nat.le_refl _) fun _ => rfl,Grows.of_eq rfl⟩
  | await t g =>
    simp only [step] at hs
    split_ifs at hs
    cases hs
    refine ⟨h.of_holders rfl rfl rfl (Nat.le_refl _) ?_,Grows.of_eq rfl⟩
    intro m
    dsimp only
    rw [List.filterMap_map]
    congr 1
    exact funext (holder_markAwaited t g)
  | storeGet m fetched =>
    simp only [step] at hs
    split at hs
    · rename_i t g type awaited hhead
      cases hs
      refine ⟨h.of_holders rfl rfl rfl (Nat.le_refl _) ?_,Grows.of_eq rfl⟩
      intro k
      have hleft := holders_unlock hhead k
      rw [if_neg (by simp [Ticket.holder])] at hleft
      exact hleft
    · cases hs
  | finish t =>
    obtain ⟨tx,htx,hready,rfl⟩ := step_finish hs
    have htask : (view s).tasks t = some tx.task := view_tasks.mpr ⟨tx,htx,rfl⟩
    have hmove := @view_setPhase s t tx .settled
    have hview : view (unlock (setPhase s t tx .settled) tx.mutex) =
        LockRegistry.settle (view s) t tx.task := by
      have hqueue : (fun k => ((unlock s tx.mutex).queues k).filterMap Ticket.holder) =
          update (view s).queue tx.mutex ((view s).queue tx.mutex).tail := by
        funext k
        rw [holders_unlock hready.2.1]
        by_cases hk : k = tx.mutex
        · subst hk
          simp [Ticket.holder,view]
        · simp [hk,view]
      unfold LockRegistry.settle
      change View.mk _ _ (view (setPhase s t tx .settled)).tasks
        (fun k => ((unlock s tx.mutex).queues k).filterMap Ticket.holder) = _
      rw [hmove,hqueue]
      rfl
    refine ⟨⟨?_,h.numbered_setPhase htx⟩,?_⟩
    · rw [hview]
      exact h.orderly.settle htask (task_running.mpr hready.1)
    · have htasks := congrArg View.tasks hmove
      exact Grows.move htask htasks
  | release t =>
    obtain ⟨tx,htx,hphase,rfl⟩ := step_release hs
    have htask : (view s).tasks t = some tx.task := view_tasks.mpr ⟨tx,htx,rfl⟩
    rcases h.view_release htx hphase with ⟨drops,hdrops,hview⟩
    refine ⟨⟨?_,?_⟩,?_⟩
    · rw [hview]
      exact h.orderly.release htask (task_settled.mpr hphase) hdrops
    · intro u other hu
      rcases releaseTxMutexRef_cases (setPhase s t tx .released) tx.key with ⟨_,hnext⟩ | hnext
      · rw [hnext] at hu ⊢
        exact h.numbered_setPhase htx u other hu
      · rw [hnext] at hu ⊢
        exact h.numbered_setPhase htx u other hu
    · unfold Grown
      rw [hview]
      exact Grows.move htask rfl

/-- The registry of an unused capability is empty. -/
theorem idle_turns : Turns idle := by
  refine ⟨⟨?_,nofun,nofun,nofun,?_,nofun,nofun⟩,nofun⟩
  · intro key
    refine ⟨[],List.nodup_nil,?_,rfl⟩
    intro t
    constructor
    · nofun
    · rintro ⟨task,htask,_⟩
      cases htask
  · intro lock
    exact List.Pairwise.nil

/-- Every run keeps the turns. -/
theorem run_turns {s last : State} {labels : List Action} (h : Turns s)
    (hr : run step s labels = some last) : Turns last ∧ Grown s last := by
  have hboth := run_relation (R := Grown) (fun s => Grows.refl (view s))
    (fun _ _ _ hfirst hsecond => Grows.trans hfirst hsecond)
    (fun _ _ _ hp hs => step_turns hp hs) hr h
  exact ⟨run_invariant (fun _ _ _ hp hs => (step_turns hp hs).1) hr h,hboth⟩

/-- The references of a key are its transactions that have not been released, which all have its mutex. -/
def Counted (s : State) : Prop :=
  ∀ key, ∃ users : List ℕ, users.Nodup ∧ (s.txMutexRefCounts key).getD 0 = users.length ∧
    (∀ t, t ∈ users ↔ ∃ tx, s.transactions t = some tx ∧ tx.key = key ∧ tx.phase ≠ .released) ∧
      ∀ t ∈ users, s.txMutexes key = (s.transactions t).map Transaction.mutex

/-- The references are counted throughout every run, whatever reads go on in the transactions. -/
theorem references_counted (labels : List Action) : Throughout step Counted idle labels := by
  refine throughout_invariant (fun _ _ _ h hs => (step_turns h hs).1) (fun s h key => ?_) idle_turns labels
  obtain ⟨users,hnodup,hmem,hcount⟩ := h.orderly.counted key
  have hrefers : ∀ t, t ∈ users ↔ ∃ tx, s.transactions t = some tx ∧ tx.key = key ∧ tx.phase ≠ .released := by
    intro t
    rw [hmem,Refers]
    simp only [view_tasks]
    grind [Transaction.task,task_released]
  refine ⟨users,hnodup,hcount,hrefers,fun t ht => ?_⟩
  obtain ⟨tx,htx,rfl,hphase⟩ := (hrefers t).mp ht
  rw [htx]
  exact h.orderly.shared t tx.task (view_tasks.mpr ⟨tx,htx,rfl⟩) fun hreleased => hphase (task_released.mp hreleased)

/-- Two transactions with one key never run at the same time. -/
theorem Turns.exclusive {s : State} (h : Turns s) {t u : ℕ} {first second : Transaction}
    (ht : s.transactions t = some first) (hu : s.transactions u = some second)
    (hkey : first.key = second.key) (hfirst : first.phase = .running) (hsecond : second.phase = .running) : t = u :=
  h.orderly.exclusive (view_tasks.mpr ⟨first,ht,rfl⟩) (view_tasks.mpr ⟨second,hu,rfl⟩) hkey
    (task_running.mpr hfirst) (task_running.mpr hsecond)

/-- A transaction starts only after those with its key that were called before it. -/
theorem Turns.inTurn {s last : State} (h : Turns last) (hgrown : Grown s last) {t u : ℕ}
    {first second : Transaction} (hearly : s.transactions t ≠ none)
    (hlate : s.transactions u = none) (ht : last.transactions t = some first)
    (hu : last.transactions u = some second) (hkey : first.key = second.key)
    (hstarted : second.phase ≠ .waiting) : first.phase = .settled ∨ first.phase = .released := by
  have hthere : (view s).tasks t ≠ none := by
    simpa [view] using hearly
  have hnot : (view s).tasks u = none := by
    simpa [view] using hlate
  have hphase := h.orderly.inTurn hgrown hthere hnot (view_tasks.mpr ⟨first,ht,rfl⟩)
    (view_tasks.mpr ⟨second,hu,rfl⟩) hkey (fun hwaiting => hstarted (task_waiting.mp hwaiting))
  rcases hphase with hphase | hphase
  · exact .inl (task_settled.mp hphase)
  · exact .inr (task_released.mp hphase)

end Baileyrs.TransactionLocks

namespace Baileyrs.TransactionOrder

open LabelledRuns

/-- In every run of top-level transactions, and in every run of calls of a keyed mutex,
two tasks with one key never run at the same time, and a task starts only after those
with its key that arrived before it have settled. -/
theorem same_key_tasks_in_turn :
    (∀ (before after : List TransactionLocks.Action) (mid last : TransactionLocks.State),
      run TransactionLocks.step TransactionLocks.idle before = some mid →
      run TransactionLocks.step mid after = some last →
      (∀ t u first second, last.transactions t = some first →
        last.transactions u = some second → first.key = second.key →
        first.phase = .running → second.phase = .running → t = u) ∧
      ∀ t u first second, mid.transactions t ≠ none → mid.transactions u = none →
        last.transactions t = some first → last.transactions u = some second →
        first.key = second.key → second.phase ≠ .waiting →
        first.phase = .settled ∨ first.phase = .released) ∧
    ∀ (before after : List KeyedMutex.Action) (mid last : KeyedMutex.State),
      run KeyedMutex.step KeyedMutex.idle before = some mid →
      run KeyedMutex.step mid after = some last →
      (∀ t u first second, last.calls t = some first → last.calls u = some second →
        first.key = second.key → first.phase = .running → second.phase = .running → t = u) ∧
      ∀ t u first second, mid.calls t ≠ none → mid.calls u = none →
        last.calls t = some first → last.calls u = some second →
        first.key = second.key → second.phase ≠ .waiting →
        first.phase = .settled ∨ first.phase = .released := by
  constructor
  · intro before after mid last hbefore hafter
    have hmid := (TransactionLocks.run_turns TransactionLocks.idle_turns hbefore).1
    have hlast := TransactionLocks.run_turns hmid hafter
    constructor
    · intro t u first second ht hu hkey hfirst hsecond
      exact hlast.1.exclusive ht hu hkey hfirst hsecond
    · intro t u first second hearly hlate ht hu hkey hstarted
      exact hlast.1.inTurn hlast.2 hearly hlate ht hu hkey hstarted
  · intro before after mid last hbefore hafter
    have hmid := (KeyedMutex.run_ordered KeyedMutex.idle_ordered hbefore).1
    have hlast := KeyedMutex.run_ordered hmid hafter
    constructor
    · intro t u first second ht hu hkey hfirst hsecond
      exact hlast.1.exclusive ht hu hkey hfirst hsecond
    · intro t u first second hearly hlate ht hu hkey hstarted
      exact hlast.1.inTurn hlast.2 hearly hlate ht hu hkey hstarted

/-- A transaction whose mutex is dropped, and another one with its key. -/
def droppedRun : List TransactionLocks.Action :=
  [.start 1,.finish 1,.release 1,.transaction "creds",.start 3]

/-- A rejecting first call, and a second one that starts after it. -/
def rejectingRun : List KeyedMutex.Action :=
  [.mutex "a",.start 1,.settle 1 true,.start 2]

theorem same_key_tasks_in_turn_dropped :
    (∃ mid last, run TransactionLocks.step TransactionLocks.idle [.transaction "creds"] = some mid ∧
      run TransactionLocks.step mid droppedRun = some last ∧
      (last.transactions 3).map TransactionLocks.Transaction.phase = some .running ∧
      ∀ first, last.transactions 1 = some first → first.key = "creds" →
        first.phase = .settled ∨ first.phase = .released) ∧
    ∃ mid last, run KeyedMutex.step KeyedMutex.idle [.mutex "a"] = some mid ∧
      run KeyedMutex.step mid rejectingRun = some last ∧
      (last.calls 2).map KeyedMutex.Call.phase = some .running ∧
      ∀ first, last.calls 1 = some first → first.key = "a" →
        first.phase = .settled ∨ first.phase = .released := by
  constructor
  · refine ⟨after TransactionLocks.step TransactionLocks.idle [.transaction "creds"],
      after TransactionLocks.step
        (after TransactionLocks.step TransactionLocks.idle [.transaction "creds"]) droppedRun,
      rfl,rfl,rfl,?_⟩
    intro first hfirst hkey
    exact (same_key_tasks_in_turn.1 [.transaction "creds"] droppedRun _ _ rfl rfl).2 1 3 _ _
      (fun hnone => nomatch hnone) rfl hfirst rfl hkey (fun hwaiting => nomatch hwaiting)
  · refine ⟨after KeyedMutex.step KeyedMutex.idle [.mutex "a"],
      after KeyedMutex.step (after KeyedMutex.step KeyedMutex.idle [.mutex "a"]) rejectingRun,
      rfl,rfl,rfl,?_⟩
    intro first hfirst hkey
    exact (same_key_tasks_in_turn.2 [.mutex "a"] rejectingRun _ _ rfl rfl).2 1 2 _ _
      (fun hnone => nomatch hnone) rfl hfirst rfl hkey (fun hwaiting => nomatch hwaiting)

end Baileyrs.TransactionOrder
