import Baileyrs.BridgeStoreOrder

/-!
# What a resolved flush certifies

A set that settled last on its key is held: its bytes are pending, or they
are the content of the file and the file's barrier is not incomplete. A
flush with its own failure set resolves only when nothing is admitted and
nothing is pending, so every such set is then on disk.
-/

namespace Baileyrs.BridgeStore

open LabelledRuns Function

/-- The key will show these bytes: pending, or settled in the file. -/
def Held (s : State) (k : StoreKey) (value : Bytes) : Prop :=
  match s.pendingWrites.get k with
  | some entry => entry.value = value
  | none => s.disk k = some value ∧ s.barrier k ≠ .incomplete

theorem Held.congr {s s' : State} {k : StoreKey} {value : Bytes} (hs : Held s k value)
    (h : SameContent s s' k) : Held s' k value := by
  unfold Held at hs ⊢
  rw [h.pending,h.disk,h.barrier]
  exact hs

/-- Bytes written by a certified write are held. -/
theorem certifyWrite_held {s : State} {k : StoreKey} {job : Job} {write : Write}
    (hw : WriteOk s k job write) (hd : s.disk k = some write.value) :
    Held (certifyWrite s k job write) k write.value := by
  have hcontent : s.disk k = some write.value ∧
      update s.barrier k FileBarrier.complete k ≠ .incomplete := ⟨hd,by simp⟩
  unfold WriteOk at hw
  unfold certifyWrite Held
  dsimp only
  cases he : write.entry with
  | none =>
    rw [he] at hw
    have hp : s.pendingWrites.get k = none := hw.2.2
    simp only [settle,rememberDurable,certifyBarrier,hp]
    exact hcontent
  | some entry =>
    rw [he] at hw
    have hp : s.pendingWrites.get k = some entry := hw.2.2.2.1
    simp only [settle,rememberDurable,certifyBarrier,hp,if_true,InsertionMap.get_delete_self]
    exact hcontent

/-- A read or a flush keeps what its key holds. -/
theorem ioJob_held {s s' : State} {k : StoreKey} {job : Job} {awaiting : Awaiting}
    {outcome : IoOutcome} {value : Bytes} (hs : Suspended s k job awaiting)
    (hjob : ∀ call, job.op = .call call → call.mutates = false) (hheld : Held s k value)
    (hio : ioJob s k job awaiting outcome = some s') : Held s' k value := by
  have hdelete : job.op ≠ .call .delete := by
    intro ho
    cases hjob _ ho
  have hwrite : ∀ write, WriteOk s k job write → ∃ entry, write.entry = some entry ∧
      s.pendingWrites.get k = some entry ∧ write.value = value := by
    intro write hw
    unfold WriteOk at hw
    cases he : write.entry with
    | none =>
      rw [he] at hw
      cases hjob _ hw.1
    | some entry =>
      rw [he] at hw
      obtain ⟨_,hv,_,hp,_⟩ := hw
      unfold Held at hheld
      rw [hp] at hheld
      exact ⟨entry,rfl,hp,hv.symm.trans hheld⟩
  have hpending : ∀ write, WriteOk s k job write → ∀ next : State,
      next.pendingWrites.get k = s.pendingWrites.get k → Held next k value := by
    intro write hw next hn
    obtain ⟨entry,_,hp,_⟩ := hwrite write hw
    unfold Held at hheld ⊢
    rw [hp] at hheld
    rw [hn,hp]
    exact hheld
  have hreject : ∀ write (mid : State), WriteOk s k job write →
      mid.pendingWrites.get k = s.pendingWrites.get k →
      Held (rejectWrite mid k job write) k value := by
    intro write mid hw hm
    refine hpending write hw _ ?_
    rw [← hm]
    unfold rejectWrite
    split
    · rename_i scope entry _ _
      cases scope <;> rfl
    · rfl
  unfold ioJob at hio
  split at hio
  · cases hio
    exact hpending _ hs.2 _ rfl
  · split at hio
    · cases hio
      exact hpending _ hs.2 _ rfl
    · cases hio
      exact hreject _ s hs.2 rfl
  · cases hio
    exact hreject _ s hs.2 rfl
  · cases hio
    exact hpending _ hs.2 _ rfl
  · cases hio
    exact hpending _ hs.2 _ rfl
  · cases hio
    exact hpending _ hs.2 _ rfl
  · rename_i write
    cases hio
    obtain ⟨_,_,_,hv⟩ := hwrite write hs.1
    rw [← hv]
    exact certifyWrite_held hs.1 hs.2.1
  · cases hio
    exact hpending _ hs.1 _ rfl
  · cases hio
    exact hreject _ _ hs.1 rfl
  · split at hio
    · cases hio
      split
      · exact hheld
      · exact hheld
    · cases hio
      exact hheld
  · cases hio
    exact hheld
  · exact absurd hs.2.op hdelete
  · exact absurd hs.2.op hdelete
  · exact absurd hs.2.op hdelete
  · exact absurd hs.2.1.op hdelete
  · exact absurd hs.2.1.op hdelete
  · exact absurd hs.1 hdelete
  · exact absurd hs.1 hdelete

/-- A set resolves on an I/O end only as its directory sync succeeds. -/
theorem ioJob_set_resolved {s s' : State} {k : StoreKey} {job : Job} {awaiting : Awaiting}
    {outcome : IoOutcome} {value : Bytes} (hs : Suspended s k job awaiting)
    (hop : job.op = .call (.set value)) (hunsettled : s.results job.id = none)
    (hio : ioJob s k job awaiting outcome = some s') {answer : Option Bytes}
    (hresolved : s'.results job.id = some (.resolved answer)) : ∃ write, awaiting = .syncDir write ∧ outcome = .ok := by
  have hreject : ∀ (mid : State) write,
      (rejectWrite mid k job write).results job.id = some .rejected := by
    intro mid write
    unfold rejectWrite
    split <;> simp [settle]
  have hother : ∀ call, job.op = .call call → call = .set value := by
    intro call ho
    rw [hop] at ho
    cases ho
    rfl
  unfold ioJob at hio
  split at hio
  · cases hio
    simp [suspend,hunsettled] at hresolved
  · split at hio
    · cases hio
      simp [suspend,hunsettled] at hresolved
    · cases hio
      simp [hreject] at hresolved
  · cases hio
    simp [hreject] at hresolved
  · cases hio
    simp [suspend,renameEffect,hunsettled] at hresolved
  · cases hio
    simp [suspend,renameEffect,hunsettled] at hresolved
  · cases hio
    simp [suspend,hunsettled] at hresolved
  · exact ⟨_,rfl,rfl⟩
  · cases hio
    simp [suspend,hunsettled] at hresolved
  · cases hio
    simp [hreject] at hresolved
  · cases hother _ hs.2.1
  · cases hother _ hs.2.1
  · cases hother _ hs.2.op
  · cases hother _ hs.2.op
  · cases hother _ hs.2.op
  · cases hother _ hs.2.1.op
  · cases hother _ hs.2.1.op
  · cases hother _ hs.1
  · cases hother _ hs.1

/-- A set that resolves on an I/O end has its bytes held. -/
theorem ioJob_set_held {s s' : State} {k : StoreKey} {job : Job} {awaiting : Awaiting}
    {outcome : IoOutcome} {value : Bytes} (hs : Suspended s k job awaiting)
    (hop : job.op = .call (.set value)) (hunsettled : s.results job.id = none)
    (hio : ioJob s k job awaiting outcome = some s') {answer : Option Bytes}
    (hresolved : s'.results job.id = some (.resolved answer)) : Held s' k value := by
  obtain ⟨write,hawaiting,houtcome⟩ := ioJob_set_resolved hs hop hunsettled hio hresolved
  subst hawaiting
  subst houtcome
  have hwrite : write.value = value := by
    have hw := hs.1
    unfold WriteOk at hw
    split at hw
    · rw [hop] at hw
      cases hw.1
      rfl
    · obtain ⟨⟨scope,ho⟩,_⟩ := hw
      rw [hop] at ho
      cases ho
  cases hio
  rw [← hwrite]
  exact certifyWrite_held hs.1 hs.2.1

/-- A read or a flush that starts keeps what its key holds. -/
theorem startJob_held {s : State} {k : StoreKey} {job : Job} {value : Bytes}
    (hjob : ∀ call, job.op = .call call → call.mutates = false) (hheld : Held s k value) :
    Held (startJob s k job) k value := by
  unfold startJob
  split
  · rename_i ho
    cases hjob _ ho
  · unfold doGetLocked
    split
    · exact hheld
    · dsimp only
      split
      · exact hheld
      · exact hheld
  · rename_i ho
    cases hjob _ ho
  · unfold flushOne
    split
    · exact hheld
    · rename_i pending hp
      split
      · exact hheld
      · unfold Held at hheld ⊢
        rw [hp] at hheld
        simp only [suspend,InsertionMap.get_set_self]
        exact hheld

/-- A set that resolves as it starts has its bytes held. -/
theorem startJob_set_held {s : State} {k : StoreKey} {job : Job} {value : Bytes}
    (hs : AtRest s k) (hop : job.op = .call (.set value)) (hunsettled : s.results job.id = none)
    {answer : Option Bytes} (hresolved : (startJob s k job).results job.id = some (.resolved answer)) :
    Held (startJob s k job) k value := by
  unfold startJob at hresolved ⊢
  rw [hop] at hresolved ⊢
  dsimp only at hresolved ⊢
  unfold doSetLocked at hresolved ⊢
  dsimp only at hresolved ⊢
  split
  · rename_i hskip
    unfold skipsWrite at hskip
    unfold Held
    cases hp : s.pendingWrites.get k with
    | some pending =>
      simp only [hp,Bool.and_eq_true,decide_eq_true_eq] at hskip
      simp only [settle,hp]
      exact hskip.1
    | none =>
      simp only [hp,decide_eq_true_eq] at hskip
      simp only [settle,hp]
      exact hs.durable_disk value hskip
  · rename_i hskip
    rw [if_neg hskip] at hresolved
    split
    · rename_i hc
      rw [if_pos hc] at hresolved
      simp [suspend,clearTimeout,hunsettled] at hresolved
    · unfold Held
      simp only [settle,armTimer,InsertionMap.get_set_self]

/-- No set or delete of its key was admitted after it. -/
def LastMutation (s : State) (entry : Admission) : Prop :=
  ∀ later ∈ s.log, later.key = entry.key → later.call.mutates = true → later.id ≤ entry.id

instance (s : State) (entry : Admission) : Decidable (LastMutation s entry) :=
  inferInstanceAs (Decidable (∀ later ∈ s.log, later.key = entry.key →
    later.call.mutates = true → later.id ≤ entry.id))

/-- Every set that resolved last on its key is held. -/
def SetsHeld (s : State) : Prop :=
  ∀ entry ∈ s.log, ∀ value answer, entry.call = .set value →
    s.results entry.id = some (.resolved answer) → LastMutation s entry →
      Held s entry.key value

/-- Steps that only add admissions and promises keep the held sets. -/
theorem SetsHeld.extend {s s' : State} (hs : SetsHeld s) (ho : OrderOk s)
    (hcontent : ∀ k, SameContent s s' k) (hresults : s'.results = s.results)
    {extra : List Admission} (hlog : s'.log = s.log++extra)
    (hextra : ∀ entry ∈ extra, s.fresh ≤ entry.id) : SetsHeld s' := by
  intro entry he value answer hcall hr hlast
  rw [hresults] at hr
  have hold : entry ∈ s.log := by
    rw [hlog] at he
    rcases List.mem_append.mp he with h | h
    · exact h
    · have hlt := ho.results_fresh entry.id (by rw [hr]; simp)
      exact absurd (hextra entry h) (Nat.not_le.mpr hlt)
  refine (hs entry hold value answer hcall hr ?_).congr (hcontent entry.key)
  intro later hl
  exact hlast later (hlog ▸ List.mem_append_left _ hl)

/-- Running the front of a chain keeps the held sets. -/
theorem Progress.setsHeld {s s' : State} {k : StoreKey} {job : Job} {rest : List Job}
    (hp : Progress s s' k job rest) (ho : OrderOk s) (hjobs : jobs s k = job::rest)
    (hs : SetsHeld s) (hothers : ∀ other, other ≠ k → SameContent s s' other)
    (hkeep : ∀ value, (∀ call, job.op = .call call → call.mutates = false) → Held s k value → Held s' k value)
    (hset : ∀ value answer, job.op = .call (.set value) →
      s'.results job.id = some (.resolved answer) → Held s' k value) : SetsHeld s' := by
  have hfront : job ∈ jobs s k := by simp [hjobs]
  intro entry he value answer hcall hr hlast
  rw [hp.log] at he
  by_cases hid : entry.id = job.id
  · have hbefore : s.results entry.id = none := by
      rw [hid]
      exact ho.jobs_unsettled k job hfront
    obtain ⟨hkey,hjob⟩ := hp.settled_front ho hjobs he hbefore (by rw [hr]; simp)
    rw [hkey]
    refine hset value answer ?_ (hid ▸ hr)
    rw [hjob,hcall]
  · have hsettled : s.results entry.id = some (.resolved answer) := (hp.results_of_ne hid).symm.trans hr
    have hbefore : LastMutation s entry := fun later hl => hlast later (hp.log ▸ hl)
    have hheld := hs entry he value answer hcall hsettled hbefore
    by_cases hkey : entry.key = k
    · rw [hkey] at hheld ⊢
      refine hkeep value ?_ hheld
      intro call hop
      have hlog := ho.queued_log k job hfront call hop
      have hlt := ho.fifo entry he (by rw [hsettled]; simp) job (hkey ▸ hfront)
      cases hm : call.mutates with
      | false => rfl
      | true => exact absurd (hbefore _ hlog hkey.symm hm) (Nat.not_le.mpr hlt)
    · exact hheld.congr (hothers entry.key hkey)

/-- Flush loops only append to chains and change flush records. -/
structure FlushFrame (s s' : State) : Prop where
  /-- Same settled promises. -/
  results : s'.results = s.results
  /-- Same admissions. -/
  log : s'.log = s.log
  /-- Same tracked operations. -/
  admitted : s'.admitted = s.admitted
  /-- Same pending writes. -/
  pendingWrites : s'.pendingWrites = s.pendingWrites
  /-- Same timers. -/
  timers : s'.timers = s.timers
  /-- Same failed entries. -/
  failedEntries : ∀ scope, (s'.scopes scope).failedEntries = (s.scopes scope).failedEntries
  /-- Chains are only appended to. -/
  waiting : ∀ k, ∃ extra, (s'.chains k).waiting = (s.chains k).waiting++extra
  /-- Same contents of every key. -/
  content : ∀ k, SameAt s s' k

/-- Replacing flush records and failure sets is a frame once the failed
entries agree. -/
theorem FlushFrame.records {s s' : State} (hresults : s'.results = s.results)
    (hlog : s'.log = s.log) (hadmitted : s'.admitted = s.admitted)
    (hpending : s'.pendingWrites = s.pendingWrites) (htimers : s'.timers = s.timers)
    (hfailed : ∀ scope, (s'.scopes scope).failedEntries = (s.scopes scope).failedEntries)
    (hchains : s'.chains = s.chains) (hcontent : ∀ k, SameAt s s' k) : FlushFrame s s' where
  results := hresults
  log := hlog
  admitted := hadmitted
  pendingWrites := hpending
  timers := htimers
  failedEntries := hfailed
  waiting k := ⟨[],by rw [hchains,List.append_nil]⟩
  content := hcontent

theorem FlushFrame.refl (s : State) : FlushFrame s s :=
  .records rfl rfl rfl rfl rfl (fun _ => rfl) rfl (SameAt.refl s)

theorem FlushFrame.trans {s mid last : State} (h₁ : FlushFrame s mid)
    (h₂ : FlushFrame mid last) : FlushFrame s last where
  results := h₂.results.trans h₁.results
  log := h₂.log.trans h₁.log
  admitted := h₂.admitted.trans h₁.admitted
  pendingWrites := h₂.pendingWrites.trans h₁.pendingWrites
  timers := h₂.timers.trans h₁.timers
  failedEntries scope := (h₂.failedEntries scope).trans (h₁.failedEntries scope)
  waiting k := by
    obtain ⟨first,h₁⟩ := h₁.waiting k
    obtain ⟨second,h₂⟩ := h₂.waiting k
    exact ⟨first++second,by rw [h₂,h₁,List.append_assoc]⟩
  content k := (h₁.content k).trans (h₂.content k)

/-- A queued promise function joins the end of its chain. -/
theorem enqueue_waiting (s : State) (k other : StoreKey) (op : JobOp) :
    ∃ extra, ((enqueue s k op).chains other).waiting = (s.chains other).waiting++extra := by
  by_cases h : other = k
  · exact ⟨[⟨s.fresh,op⟩],by simp [enqueue,h]⟩
  · exact ⟨[],by simp [enqueue,h]⟩

theorem enqueue_frame (s : State) (k : StoreKey) (op : JobOp) : FlushFrame s (enqueue s k op) where
  results := rfl
  log := rfl
  admitted := rfl
  pendingWrites := rfl
  timers := rfl
  failedEntries _ := rfl
  waiting other := enqueue_waiting s k other op
  content _ := enqueue_sameAt s k op

theorem setFlush_frame (s : State) (f : ℕ) (call : FlushCall) : FlushFrame s (setFlush s f call) :=
  .records rfl rfl rfl rfl rfl (fun _ => rfl) rfl (setFlush_sameAt s f call)

theorem flushKeys_frame (s : State) (scope : ScopeId) (keys : List StoreKey) :
    FlushFrame s (flushKeys s scope keys).1 := by
  induction keys generalizing s with
  | nil => exact FlushFrame.refl s
  | cons k rest ih => exact (enqueue_frame s k _).trans (ih _)

/-- One stretch of a flush loop: it replaces the flush's record, queues the
flushes it records as draining, and resolves only when nothing is left. -/
structure LoopStep (s : State) (f : ℕ) (call : FlushCall) (s' : State)
    (call' : FlushCall) : Prop extends FlushFrame s s' where
  /-- Identities are only consumed. -/
  fresh : s.fresh ≤ s'.fresh
  /-- Only its own record changes. -/
  flushes : s'.flushes = update s.flushes f (some call')
  /-- Same failure set. -/
  scope : call'.scope = call.scope
  /-- Same recorded failures. -/
  errors : call'.errors = call.errors
  /-- New jobs are the flushes it waits for. -/
  queued : ∀ k, ∀ job ∈ jobs s' k, job ∈ jobs s k ∨ s.fresh ≤ job.id ∧
    job.op = .flushOne (some call.scope) ∧ ∃ ops, call'.stage = .draining ops ∧ job.id ∈ ops
  /-- It resolves without failures, eligible keys or tracked operations. -/
  resolved : call'.stage = .resolved →
    call.errors = [] ∧ eligibleKeys s call.scope = [] ∧ s.admitted = []

theorem setFlush_loopStep (s : State) (f : ℕ) {call call' : FlushCall}
    (hscope : call'.scope = call.scope) (herrors : call'.errors = call.errors)
    (hstage : call'.stage ≠ .resolved) : LoopStep s f call (setFlush s f call') call' where
  toFlushFrame := setFlush_frame s f call'
  fresh := le_rfl
  flushes := rfl
  scope := hscope
  errors := herrors
  queued _ _ hj := Or.inl hj
  resolved h := absurd h hstage

theorem finishFlush_loopStep (s : State) (f : ℕ) (call : FlushCall) :
    ∃ call', LoopStep s f call (finishFlush s f call) call' := by
  unfold finishFlush
  dsimp only
  split
  · exact ⟨_,setFlush_loopStep s f rfl rfl (by simp)⟩
  · rename_i herrors
    split
    · let exhausted : DrainScope := ⟨(s.scopes call.scope).failedEntries,true⟩
      have hexhausted : FlushFrame s {s with scopes := update s.scopes call.scope exhausted} := by
        refine .records rfl rfl rfl rfl rfl (fun scope => ?_) rfl
          fun k => ⟨⟨rfl,Iff.rfl,rfl,rfl,Or.inl rfl⟩,rfl⟩
        by_cases h : scope = call.scope
        · simp [h,exhausted]
        · simp [h]
      have hframe := hexhausted.trans (setFlush_frame _ f {call with stage := .rejected})
      exact ⟨_,hframe,le_rfl,rfl,rfl,rfl,fun k job hj => Or.inl hj,fun h => by cases h⟩
    · rename_i hleft
      have hnone : eligibleKeys s call.scope = [] ∧ s.admitted = [] := by
        rwa [not_or,not_not,not_not] at hleft
      have hframe := setFlush_frame s f {call with stage := .resolved}
      exact ⟨_,hframe,le_rfl,rfl,rfl,rfl,fun k job hj => Or.inl hj,
        fun _ => ⟨not_not.mp herrors,hnone⟩⟩

/-- A job found on a chain after queuing is old, or is the one queued. -/
theorem mem_jobs_enqueue {s : State} {k other : StoreKey} {op : JobOp} {job : Job}
    (hj : job ∈ jobs (enqueue s k op) other) : job ∈ jobs s other ∨ job = ⟨s.fresh,op⟩ := by
  rw [jobs_enqueue] at hj
  split at hj
  · rename_i he
    rcases List.mem_append.mp hj with h | h
    · exact Or.inl (he ▸ h)
    · exact Or.inr (List.mem_singleton.mp h)
  · exact Or.inl hj

/-- Queued flushes carry the scope, and their promises are collected. -/
theorem flushKeys_queued (s : State) (scope : ScopeId) (keys : List StoreKey) (k : StoreKey) :
    ∀ job ∈ jobs (flushKeys s scope keys).1 k, job ∈ jobs s k ∨ s.fresh ≤ job.id ∧
      job.op = .flushOne (some scope) ∧ job.id ∈ (flushKeys s scope keys).2 := by
  induction keys generalizing s with
  | nil => exact fun job hj => Or.inl hj
  | cons key rest ih =>
    intro job hj
    rcases ih _ job hj with h | ⟨hfresh,ho,hid⟩
    · rcases mem_jobs_enqueue h with h | rfl
      · exact Or.inl h
      · exact Or.inr ⟨le_rfl,rfl,List.mem_cons_self⟩
    · exact Or.inr ⟨(Nat.le_succ _).trans hfresh,ho,List.mem_cons_of_mem _ hid⟩

theorem flushKeys_fresh (s : State) (scope : ScopeId) (keys : List StoreKey) :
    s.fresh ≤ (flushKeys s scope keys).1.fresh := by
  induction keys generalizing s with
  | nil => exact le_rfl
  | cons key rest ih => exact (Nat.le_succ _).trans (ih (enqueue s key _))

theorem flushKeys_flushes (s : State) (scope : ScopeId) (keys : List StoreKey) :
    (flushKeys s scope keys).1.flushes = s.flushes := by
  induction keys generalizing s with
  | nil => rfl
  | cons key rest ih => exact ih _

theorem drainPending_loopStep (s : State) (f : ℕ) (call : FlushCall) :
    ∃ call', LoopStep s f call (drainPending s f call) call' := by
  unfold drainPending
  dsimp only
  split
  · split
    · exact finishFlush_loopStep s f call
    · split
      · exact ⟨_,setFlush_loopStep s f rfl rfl (by simp)⟩
      · obtain ⟨call',h⟩ := finishFlush_loopStep s f {call with pass := call.pass+1}
        exact ⟨call',h.toFlushFrame,h.fresh,h.flushes,h.scope,h.errors,h.queued,h.resolved⟩
  · let keys := eligibleKeys s call.scope
    let draining : FlushCall := {call with stage := .draining (flushKeys s call.scope keys).2}
    have hframe := (flushKeys_frame s call.scope keys).trans (setFlush_frame _ f draining)
    refine ⟨draining,hframe,flushKeys_fresh s call.scope keys,?_,rfl,rfl,?_,fun h => by cases h⟩
    · rw [← flushKeys_flushes s call.scope keys]
      rfl
    · intro k job hj
      rcases flushKeys_queued s call.scope keys k job hj with h | ⟨hfresh,ho,hid⟩
      · exact Or.inl h
      · exact Or.inr ⟨hfresh,ho,_,rfl,hid⟩

theorem flushPass_loopStep (s : State) (f : ℕ) (call : FlushCall) :
    ∃ call', LoopStep s f call (flushPass s f call) call' := by
  unfold flushPass
  split
  · split
    · exact drainPending_loopStep s f call
    · exact ⟨_,setFlush_loopStep s f rfl rfl (by simp)⟩
  · exact finishFlush_loopStep s f call

/-- A new flush takes the next identity and starts its loop. -/
theorem flushAll_loopStep (s : State) (scope : ScopeId) :
    ∃ call', LoopStep {s with fresh := s.fresh+1} s.fresh ⟨scope,0,[],.barrier []⟩
      (flushAll s scope) call' := by
  unfold flushAll
  dsimp only
  split
  · exact ⟨_,setFlush_loopStep _ _ rfl rfl (by simp)⟩
  · exact flushPass_loopStep _ _ _

/-- A flush continues after everything it waits for settled, with the
failures among them recorded. -/
theorem resumeFlush_loopStep {s s' : State} {f : ℕ} {call : FlushCall} (h : resumeFlush s f call = some s') :
    ∃ waited pass call', (call.stage = .barrier waited ∨ call.stage = .draining waited) ∧
      (∀ id ∈ waited, s.results id ≠ none) ∧
      LoopStep s f ⟨call.scope,pass,call.errors++rejections s waited,call.stage⟩ s' call' := by
  unfold resumeFlush at h
  split at h
  · rename_i waited hstage
    split at h
    · rename_i hsettled
      cases h
      obtain ⟨call',hl⟩ :=
        drainPending_loopStep s f {call with errors := call.errors++rejections s waited}
      exact ⟨waited,call.pass,call',Or.inl hstage,hsettled,hl⟩
    · cases h
  · rename_i waited hstage
    split at h
    · rename_i hsettled
      dsimp only at h
      split at h
      · cases h
        obtain ⟨call',hl⟩ :=
          finishFlush_loopStep s f {call with errors := call.errors++rejections s waited}
        exact ⟨waited,call.pass,call',Or.inr hstage,hsettled,hl⟩
      · cases h
        let next : FlushCall := ⟨call.scope,call.pass+1,call.errors++rejections s waited,call.stage⟩
        obtain ⟨call',hl⟩ := flushPass_loopStep s f next
        exact ⟨waited,call.pass+1,call',Or.inr hstage,hsettled,hl⟩
    · cases h
  · cases h

theorem flushAll_frame (s : State) (scope : ScopeId) : FlushFrame s (flushAll s scope) := by
  have hstarted : FlushFrame s {s with fresh := s.fresh+1} :=
    .records rfl rfl rfl rfl rfl (fun _ => rfl) rfl fun _ => ⟨⟨rfl,Iff.rfl,rfl,rfl,Or.inl rfl⟩,rfl⟩
  obtain ⟨call',hl⟩ := flushAll_loopStep s scope
  exact hstarted.trans hl.toFlushFrame

theorem resumeFlush_frame {s s' : State} {f : ℕ} {call : FlushCall}
    (h : resumeFlush s f call = some s') : FlushFrame s s' := by
  obtain ⟨waited,pass,call',_,_,hl⟩ := resumeFlush_loopStep h
  exact hl.toFlushFrame

/-- A flush loop step keeps the held sets. -/
theorem FlushFrame.setsHeld {s s' : State} (h : FlushFrame s s') (ho : OrderOk s) (hs : SetsHeld s) : SetsHeld s' := by
  have hlog : s'.log = s.log++[] := by rw [h.log,List.append_nil]
  exact hs.extend ho (fun k => (h.content k).toSameContent) h.results hlog
    fun entry he => absurd he (List.not_mem_nil)

theorem withKeyLocks_setsHeld {s : State} (ho : OrderOk s) (hs : SetsHeld s)
    (calls : List (StoreKey × KeyCall)) : SetsHeld (withKeyLocks s calls) := by
  induction calls generalizing s with
  | nil => exact hs
  | cons pair rest ih =>
    refine ih (withKeyLock_orderOk ho pair.1 pair.2) ?_
    refine hs.extend ho (fun k => (withKeyLock_sameAt s pair.1 k pair.2).toSameContent) rfl rfl ?_
    intro entry he
    rw [List.mem_singleton.mp he]

theorem withKeyLocks_results (s : State) (calls : List (StoreKey × KeyCall)) :
    (withKeyLocks s calls).results = s.results := by
  induction calls generalizing s with
  | nil => rfl
  | cons pair rest ih => exact ih (withKeyLock s pair.1 pair.2)

/-- Promises settle only as the front of a chain moves. -/
theorem step_settles {s s' : State} {a : Action} (h : step s a = some s') {id : ℕ}
    (hbefore : s.results id = none) (hafter : s'.results id ≠ none) : ∃ k, Advances a k := by
  have hsame : s'.results ≠ s.results := by
    intro he
    rw [he] at hafter
    exact hafter hbefore
  cases a with
  | invoke calls =>
    cases h
    exact absurd (withKeyLocks_results s calls) hsame
  | start k => exact ⟨k,Or.inl rfl⟩
  | io k outcome => exact ⟨k,Or.inr ⟨outcome,rfl⟩⟩
  | fire timer =>
    obtain ⟨_,_,rfl⟩ := step_fire h
    exact absurd rfl hsame
  | flush =>
    cases h
    exact absurd (flushAll_frame s _).results hsame
  | drain drained =>
    cases h
    exact absurd (flushAll_frame s _).results hsame
  | resume f =>
    obtain ⟨call,_,hr⟩ := step_resume h
    exact absurd (resumeFlush_frame hr).results hsame

/-- An admission that settles was about to start, or was suspended. -/
theorem step_settles_front {s s' : State} {a : Action} (ho : OrderOk s) (h : step s a = some s')
    {entry : Admission} (he : entry ∈ s.log) (hbefore : s.results entry.id = none)
    (hafter : s'.results entry.id ≠ none) :
    (a = .start entry.key ∧ ∃ rest,
      s.chains entry.key = ⟨none,⟨entry.id,.call entry.call⟩::rest⟩ ∧
      s' = startJob {s with chains := update s.chains entry.key ⟨none,rest⟩} entry.key
        ⟨entry.id,.call entry.call⟩) ∨
    ∃ awaiting outcome, a = .io entry.key outcome ∧
      (s.chains entry.key).running = some (⟨entry.id,.call entry.call⟩,awaiting) ∧
      ioJob s entry.key ⟨entry.id,.call entry.call⟩ awaiting outcome = some s' := by
  obtain ⟨k,rfl | ⟨outcome,rfl⟩⟩ := step_settles h hbefore hafter
  · obtain ⟨front,tail,hjobs,hp⟩ := step_start_progress h
    obtain ⟨hkey,hfront⟩ := hp.settled_front ho hjobs he hbefore hafter
    obtain ⟨job,rest,hc,hs'⟩ := step_start h
    unfold jobs at hjobs
    rw [hc] at hjobs
    have hjob := (List.cons.inj hjobs).1
    rw [hfront] at hjob
    subst hjob
    subst hkey
    exact Or.inl ⟨rfl,rest,hc,hs'⟩
  · obtain ⟨front,tail,hjobs,hp⟩ := step_io_progress h
    obtain ⟨hkey,hfront⟩ := hp.settled_front ho hjobs he hbefore hafter
    obtain ⟨job,awaiting,hr,hio⟩ := step_io h
    unfold jobs at hjobs
    rw [hr] at hjobs
    have hjob := (List.cons.inj hjobs).1
    dsimp only at hjob
    rw [hfront] at hjob
    subst hjob
    subst hkey
    exact Or.inr ⟨awaiting,outcome,rfl,hr,hio⟩

/-- Every step keeps the held sets. -/
theorem step_setsHeld {s s' : State} {a : Action} (hk : ∀ k, KeyOk s k) (ho : OrderOk s)
    (hs : SetsHeld s) (h : step s a = some s') : SetsHeld s' := by
  cases a with
  | invoke calls =>
    cases h
    exact withKeyLocks_setsHeld ho hs calls
  | start k =>
    obtain ⟨job,rest,hc,rfl⟩ := step_start h
    obtain ⟨front,tail,hjobs,hp⟩ := step_start_progress h
    have hfront : front = job ∧ tail = rest := by
      unfold jobs at hjobs
      rw [hc] at hjobs
      exact ⟨(List.cons.inj hjobs).1.symm,(List.cons.inj hjobs).2.symm⟩
    obtain ⟨rfl,rfl⟩ := hfront
    have hunsettled : s.results front.id = none :=
      ho.jobs_unsettled k front (hjobs ▸ List.mem_cons_self)
    refine hp.setsHeld ho hjobs hs ?_ ?_ ?_
    · intro other hne
      have hdequeue := dequeue_sameContent s k other ⟨none,tail⟩
      exact hdequeue.trans (startJob_sameAt _ front hne.symm).toSameContent
    · intro value hjob hheld
      exact startJob_held hjob (hheld.congr (dequeue_sameContent s k k _))
    · intro value answer hop hr
      exact startJob_set_held ((hk k).dequeued hc) hop hunsettled hr
  | io k outcome =>
    obtain ⟨job,awaiting,hr,hio⟩ := step_io h
    obtain ⟨front,tail,hjobs,hp⟩ := step_io_progress h
    have hfront : front = job := by
      unfold jobs at hjobs
      rw [hr] at hjobs
      exact (List.cons.inj hjobs).1.symm
    subst hfront
    have hsuspended := hk k
    unfold KeyOk at hsuspended
    rw [hr] at hsuspended
    have hunsettled : s.results front.id = none :=
      ho.jobs_unsettled k front (hjobs ▸ List.mem_cons_self)
    refine hp.setsHeld ho hjobs hs ?_ ?_ ?_
    · intro other hne
      exact (ioJob_sameAt hio hne.symm).toSameContent
    · intro value hjob hheld
      exact ioJob_held hsuspended hjob hheld hio
    · intro value answer hop hres
      exact ioJob_set_held hsuspended hop hunsettled hio hres
  | fire timer =>
    obtain ⟨_,_,rfl⟩ := step_fire h
    have hcleared : SetsHeld (clearTimeout s (some timer)) := hs
    exact (enqueue_frame _ _ _).setsHeld (ho.congr le_rfl rfl rfl rfl rfl) hcleared
  | flush =>
    cases h
    exact (flushAll_frame s _).setsHeld ho hs
  | drain id =>
    cases h
    exact (flushAll_frame s _).setsHeld ho hs
  | resume f =>
    obtain ⟨call,_,hr⟩ := step_resume h
    exact (resumeFlush_frame hr).setsHeld ho hs

/-- Every set that resolved last on its key is held in every reachable state. -/
theorem reachable_setsHeld {s : State} (hs : ReachableState s) : SetsHeld s := by
  have hall : SetsHeld s ∧ OrderOk s ∧ ∀ k, KeyOk s k := by
    refine hs.invariant (P := fun s => SetsHeld s ∧ OrderOk s ∧ ∀ k, KeyOk s k) ?_ ?_
    · rintro s ⟨disk,rfl⟩
      refine ⟨?_,opened_orderOk disk,opened_keyOk disk⟩
      intro entry he
      cases he
    · rintro s a next ⟨hheld,ho,hk⟩ hn
      exact ⟨step_setsHeld hk ho hheld hn,step_orderOk ho hn,fun k => step_keyOk hk hn k⟩
  exact hall.1

end Baileyrs.BridgeStore
