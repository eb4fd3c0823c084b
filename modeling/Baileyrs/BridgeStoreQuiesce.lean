import Baileyrs.BridgeStoreFlush

/-!
# A resolved flush leaves nothing behind

A flush with its own failure set records every failure of the flushes it
queues before it can resolve. It therefore resolves only when no operation
is admitted and no write is pending, whatever ran in between.
-/

namespace Baileyrs.BridgeStore

open LabelledRuns Function

/-- A failure of a flush is recorded, or one of the operations it still
waits for has rejected. -/
def FailureKnown (s : State) (f : ℕ) (call : FlushCall) : Prop :=
  call.scope = .own f ∧ (call.errors ≠ [] ∨
    ∃ ops, call.stage = .draining ops ∧ ∃ id ∈ ops, s.results id = some .rejected)

/-- Flush records, their queued flushes and their failure sets agree. -/
structure FlushOk (s : State) : Prop where
  /-- Recorded flushes have used identities. -/
  flushes_fresh : ∀ f call, s.flushes f = some call → f < s.fresh
  /-- Only the flush itself uses its own failure set. -/
  own_scope : ∀ f call g, s.flushes f = some call → call.scope = .own g → g = f
  /-- Its queued flushes are operations it waits for. -/
  drained : ∀ k, ∀ job ∈ jobs s k, ∀ f, job.op = .flushOne (some (.own f)) →
    ∃ call ops, s.flushes f = some call ∧ call.scope = .own f ∧
      call.stage = .draining ops ∧ job.id ∈ ops
  /-- It knows of every failed entry. -/
  failed : ∀ f, (s.scopes (.own f)).failedEntries ≠ [] →
    ∃ call, s.flushes f = some call ∧ FailureKnown s f call

/-- A job adds to a failure set only as a rejected flush of that set. -/
theorem JobStep.failedEntries {s s' : State} {k : StoreKey} {job : Job} (h : JobStep s k job s') (scope : ScopeId) :
    (s'.scopes scope).failedEntries = (s.scopes scope).failedEntries ∨
      job.op = .flushOne (some scope) ∧ s'.results job.id = some .rejected := by
  cases h with
  | suspended mid awaiting he hm =>
    rw [he,← hm.scopes]
    exact Or.inl rfl
  | settled mid outcome he hm =>
    rw [he,← hm.scopes]
    exact Or.inl rfl
  | failed mid own entry hop he hm =>
    subst he
    cases own with
    | none =>
      rw [← hm.scopes]
      exact Or.inl rfl
    | some own =>
      by_cases ho : scope = own
      · subst ho
        exact Or.inr ⟨hop,by simp [settle]⟩
      · rw [← hm.scopes]
        simp [settle,addFailed,ho]

/-- Running the front of a chain keeps the flush records consistent. -/
theorem FlushOk.progress {s s' : State} {k : StoreKey} {job : Job} {rest : List Job}
    (hs : FlushOk s) (ho : OrderOk s) (hjobs : jobs s k = job::rest) (hp : Progress s s' k job rest)
    (hscopes : ∀ scope, (s'.scopes scope).failedEntries = (s.scopes scope).failedEntries ∨
      job.op = .flushOne (some scope) ∧ s'.results job.id = some .rejected) : FlushOk s' := by
  have hfront : job ∈ jobs s k := by simp [hjobs]
  have hsub : ∀ other queued, queued ∈ jobs s' other → queued ∈ jobs s other := hp.queued hjobs
  have hrejected : ∀ id, s.results id = some .rejected → s'.results id = some .rejected := by
    intro id hr
    have hsettled : s.results id ≠ none := by
      rw [hr]
      exact Option.some_ne_none _
    exact (hp.settled ho hjobs hsettled).trans hr
  constructor
  · intro f call hf
    rw [hp.flushes] at hf
    exact (hs.flushes_fresh f call hf).trans_le hp.fresh
  · intro f call g hf
    rw [hp.flushes] at hf
    exact hs.own_scope f call g hf
  · intro other queued hq f hop
    rw [hp.flushes]
    exact hs.drained other queued (hsub other queued hq) f hop
  · intro f hfailed
    rw [hp.flushes]
    rcases hscopes (.own f) with hsame | ⟨hop,hr⟩
    · rw [hsame] at hfailed
      obtain ⟨call,hf,hscope,hknown⟩ := hs.failed f hfailed
      refine ⟨call,hf,hscope,?_⟩
      rcases hknown with he | ⟨ops,hstage,id,hid,hr⟩
      · exact Or.inl he
      · exact Or.inr ⟨ops,hstage,id,hid,hrejected id hr⟩
    · obtain ⟨call,ops,hf,hscope,hstage,hid⟩ := hs.drained k job hfront f hop
      exact ⟨call,hf,hscope,Or.inr ⟨ops,hstage,job.id,hid,hr⟩⟩

/-- Queuing operations outside any own scope keeps the records consistent. -/
theorem FlushOk.extend {s s' : State} (hs : FlushOk s) (hfresh : s.fresh ≤ s'.fresh)
    (hflushes : s'.flushes = s.flushes) (hscopes : s'.scopes = s.scopes)
    (hresults : s'.results = s.results)
    (hjobs : ∀ k, ∀ job ∈ jobs s' k, job ∈ jobs s k ∨
      ∀ f, job.op ≠ .flushOne (some (.own f))) : FlushOk s' where
  flushes_fresh f call hf := by
    rw [hflushes] at hf
    exact (hs.flushes_fresh f call hf).trans_le hfresh
  own_scope f call g hf := by
    rw [hflushes] at hf
    exact hs.own_scope f call g hf
  drained k job hj f hop := by
    rw [hflushes]
    rcases hjobs k job hj with h | h
    · exact hs.drained k job h f hop
    · exact absurd hop (h f)
  failed f hfailed := by
    rw [hscopes] at hfailed
    obtain ⟨call,hf,hknown⟩ := hs.failed f hfailed
    unfold FailureKnown at hknown ⊢
    rw [hflushes,hresults]
    exact ⟨call,hf,hknown⟩

theorem enqueue_flushOk {s : State} (hs : FlushOk s) (k : StoreKey) {op : JobOp}
    (hop : ∀ f, op ≠ .flushOne (some (.own f))) : FlushOk (enqueue s k op) := by
  refine hs.extend (Nat.le_succ _) rfl rfl rfl ?_
  intro other job hj
  rcases mem_jobs_enqueue hj with h | rfl
  · exact Or.inl h
  · exact Or.inr hop

theorem withKeyLock_flushOk {s : State} (hs : FlushOk s) (k : StoreKey) (call : KeyCall) :
    FlushOk (withKeyLock s k call) := by
  have hqueued : FlushOk (enqueue s k (.call call)) := enqueue_flushOk hs k fun f h => by cases h
  exact hqueued.extend le_rfl rfl rfl rfl fun _ job hj => Or.inl hj

theorem withKeyLocks_flushOk {s : State} (hs : FlushOk s)
    (calls : List (StoreKey × KeyCall)) : FlushOk (withKeyLocks s calls) := by
  induction calls generalizing s with
  | nil => exact hs
  | cons pair rest ih => exact ih (withKeyLock_flushOk hs pair.1 pair.2)

/-- A flush about to run its loop: none of its flushes is queued, and it
recorded every failure. -/
structure Idle (s : State) (f : ℕ) (call : FlushCall) : Prop where
  /-- Its identity is used. -/
  fresh : f < s.fresh
  /-- Only the flush itself uses its own failure set. -/
  own : ∀ g, call.scope = .own g → g = f
  /-- None of its flushes is queued. -/
  jobs : ∀ k, ∀ job ∈ jobs s k, job.op ≠ .flushOne (some (.own f))
  /-- Its failures are recorded. -/
  failed : (s.scopes (.own f)).failedEntries ≠ [] → call.scope = .own f ∧ call.errors ≠ []

/-- A stretch of a flush loop keeps the records consistent. -/
theorem LoopStep.flushOk {s s' : State} {f : ℕ} {call call' : FlushCall}
    (hl : LoopStep s f call s' call') (hs : FlushOk s) (hidle : Idle s f call) : FlushOk s' := by
  have hrecord : ∀ g, g ≠ f → s'.flushes g = s.flushes g := by
    intro g hg
    rw [hl.flushes,update_of_ne hg]
  have hown : s'.flushes f = some call' := by rw [hl.flushes,update_self]
  constructor
  · intro g record hg
    by_cases hgf : g = f
    · exact hgf ▸ hidle.fresh.trans_le hl.fresh
    · rw [hrecord g hgf] at hg
      exact (hs.flushes_fresh g record hg).trans_le hl.fresh
  · intro g record h hg hscope
    by_cases hgf : g = f
    · subst hgf
      rw [hown] at hg
      cases hg
      exact hidle.own h (hl.scope ▸ hscope)
    · rw [hrecord g hgf] at hg
      exact hs.own_scope g record h hg hscope
  · intro k job hj g hop
    rcases hl.queued k job hj with hold | ⟨_,hnew,ops,hstage,hid⟩
    · have hgf : g ≠ f := by
        rintro rfl
        exact hidle.jobs k job hold hop
      rw [hrecord g hgf]
      exact hs.drained k job hold g hop
    · rw [hnew] at hop
      have hscope : call.scope = .own g := by
        cases call
        cases hop
        rfl
      have hgf := hidle.own g hscope
      subst hgf
      exact ⟨call',ops,hown,hl.scope.trans hscope,hstage,hid⟩
  · intro g hfailed
    rw [hl.failedEntries] at hfailed
    by_cases hgf : g = f
    · subst hgf
      obtain ⟨hscope,herrors⟩ := hidle.failed hfailed
      exact ⟨call',hown,hl.scope.trans hscope,Or.inl (hl.errors ▸ herrors)⟩
    · obtain ⟨record,hg,hknown⟩ := hs.failed g hfailed
      unfold FailureKnown at hknown ⊢
      rw [hrecord g hgf,hl.results]
      exact ⟨record,hg,hknown⟩

/-- A flush that starts is idle. -/
theorem FlushOk.start_idle {s : State} (hs : FlushOk s) {scope : ScopeId}
    (hscope : ∀ g, scope = .own g → g = s.fresh) :
    Idle {s with fresh := s.fresh+1} s.fresh ⟨scope,0,[],.barrier []⟩ where
  fresh := Nat.lt_succ_self _
  own := hscope
  jobs k job hj hop := by
    obtain ⟨call,ops,hf,_⟩ := hs.drained k job hj s.fresh hop
    exact Nat.lt_irrefl _ (hs.flushes_fresh s.fresh call hf)
  failed hfailed := by
    obtain ⟨call,hf,_⟩ := hs.failed s.fresh hfailed
    exact absurd (hs.flushes_fresh s.fresh call hf) (Nat.lt_irrefl _)

/-- A flush whose operations all settled is idle once it recorded them. -/
theorem FlushOk.resume_idle {s : State} (hs : FlushOk s) (ho : OrderOk s) {f pass : ℕ}
    {call : FlushCall} {waited : List ℕ} (hf : s.flushes f = some call)
    (hstage : call.stage = .barrier waited ∨ call.stage = .draining waited)
    (hsettled : ∀ id ∈ waited, s.results id ≠ none) :
    Idle s f ⟨call.scope,pass,call.errors++rejections s waited,call.stage⟩ where
  fresh := hs.flushes_fresh f call hf
  own g hg := hs.own_scope f call g hf hg
  jobs k job hj hop := by
    obtain ⟨record,ops,hg,_,hdraining,hid⟩ := hs.drained k job hj f hop
    rw [hf] at hg
    cases hg
    have hwaited : job.id ∈ waited := by
      rcases hstage with h | h
      · rw [hdraining] at h
        cases h
      · rw [hdraining] at h
        cases h
        exact hid
    exact hsettled job.id hwaited (ho.jobs_unsettled k job hj)
  failed hfailed := by
    obtain ⟨record,hg,hscope,hknown⟩ := hs.failed f hfailed
    rw [hf] at hg
    cases hg
    refine ⟨hscope,?_⟩
    rcases hknown with herrors | ⟨ops,hdraining,id,hid,hr⟩
    · exact List.append_ne_nil_of_left_ne_nil herrors _
    · have hwaited : id ∈ waited := by
        rcases hstage with h | h
        · rw [hdraining] at h
          cases h
        · rw [hdraining] at h
          cases h
          exact hid
      have hmem : id ∈ rejections s waited := List.mem_filter.mpr ⟨hwaited,decide_eq_true hr⟩
      exact List.append_ne_nil_of_right_ne_nil _ (List.ne_nil_of_mem hmem)

/-- Every step keeps the flush records consistent. -/
theorem step_flushOk {s s' : State} {a : Action} (ho : OrderOk s) (hs : FlushOk s)
    (h : step s a = some s') : FlushOk s' := by
  cases a with
  | invoke calls =>
    cases h
    exact withKeyLocks_flushOk hs calls
  | start k =>
    obtain ⟨front,tail,hjobs,hp⟩ := step_start_progress h
    obtain ⟨job,rest,hc,rfl⟩ := step_start h
    have hfront : front = job := by
      unfold jobs at hjobs
      rw [hc] at hjobs
      exact (List.cons.inj hjobs).1.symm
    subst hfront
    exact hs.progress ho hjobs hp (startJob_jobStep _ k front).failedEntries
  | io k outcome =>
    obtain ⟨front,tail,hjobs,hp⟩ := step_io_progress h
    obtain ⟨job,awaiting,hr,hio⟩ := step_io h
    have hfront : front = job := by
      unfold jobs at hjobs
      rw [hr] at hjobs
      exact (List.cons.inj hjobs).1.symm
    subst hfront
    exact hs.progress ho hjobs hp (ioJob_jobStep hio).failedEntries
  | fire timer =>
    obtain ⟨_,_,rfl⟩ := step_fire h
    have hcleared : FlushOk (clearTimeout s (some timer)) :=
      hs.extend le_rfl rfl rfl rfl fun _ _ hj => Or.inl hj
    exact enqueue_flushOk hcleared _ fun f h => by cases h
  | flush =>
    cases h
    obtain ⟨call',hl⟩ := flushAll_loopStep s (.own s.fresh)
    have hstarted : FlushOk {s with fresh := s.fresh+1} :=
      hs.extend (Nat.le_succ _) rfl rfl rfl fun _ _ hj => Or.inl hj
    exact hl.flushOk hstarted (hs.start_idle fun g hg => by cases hg; rfl)
  | drain id =>
    cases h
    obtain ⟨call',hl⟩ := flushAll_loopStep s (.drain id)
    have hstarted : FlushOk {s with fresh := s.fresh+1} :=
      hs.extend (Nat.le_succ _) rfl rfl rfl fun _ _ hj => Or.inl hj
    exact hl.flushOk hstarted (hs.start_idle fun g hg => by cases hg)
  | resume f =>
    obtain ⟨call,hf,hr⟩ := step_resume h
    obtain ⟨waited,pass,call',hstage,hsettled,hl⟩ := resumeFlush_loopStep hr
    exact hl.flushOk hs (hs.resume_idle ho hf hstage hsettled)

theorem reachable_flushOk {s : State} (hs : ReachableState s) : FlushOk s := by
  have hall : FlushOk s ∧ OrderOk s := by
    refine hs.invariant (P := fun s => FlushOk s ∧ OrderOk s) ?_ ?_
    · rintro s ⟨disk,rfl⟩
      refine ⟨⟨?_,?_,?_,?_⟩,opened_orderOk disk⟩
      · intro f call hf
        cases hf
      · intro f call g hf
        cases hf
      · intro k job hj
        cases hj
      · intro f hfailed
        exact absurd rfl hfailed
    · rintro s a next ⟨hf,ho⟩ hn
      exact ⟨step_flushOk ho hf hn,step_orderOk ho hn⟩
  exact hall.1

/-- A flush using this failure set has resolved. -/
def FlushResolved (s : State) (scope : ScopeId) (f : ℕ) : Prop :=
  ∃ call, s.flushes f = some call ∧ call.scope = scope ∧ call.stage = .resolved

instance (s : State) (scope : ScopeId) (f : ℕ) : Decidable (FlushResolved s scope f) :=
  decidable_of_iff
    ((s.flushes f).any fun call => decide (call.scope = scope ∧ call.stage = .resolved)) (by
      simp [FlushResolved,Option.any_eq_true])

/-- Nothing is admitted, and what is pending failed in the shared set. -/
structure Quiescent (s : State) (scope : ScopeId) (f : ℕ) : Prop where
  /-- No operation is tracked. -/
  admitted : s.admitted = []
  /-- Pending entries have failed in the scope. -/
  pending : ∀ k entry, s.pendingWrites.get k = some entry →
    entry.object ∈ (s.scopes scope).failedEntries
  /-- Without an error its own scope has no failed entry. -/
  own : scope = .own f → (s.scopes scope).failedEntries = []

/-- A loop stretch resolves an idle flush only when nothing is left. -/
theorem LoopStep.quiescent {s s' : State} {f g : ℕ} {call call' : FlushCall} {scope : ScopeId}
    (hl : LoopStep s f call s' call') (hidle : Idle s f call)
    (hbefore : ¬FlushResolved s scope g) (hafter : FlushResolved s' scope g) : Quiescent s' scope g := by
  obtain ⟨record,hg,hscope,hstage⟩ := hafter
  by_cases hgf : g = f
  · subst hgf
    rw [hl.flushes,update_self] at hg
    cases hg
    obtain ⟨herrors,heligible,hadmitted⟩ := hl.resolved hstage
    rw [hl.scope] at hscope
    subst hscope
    refine ⟨hl.admitted.trans hadmitted,?_,?_⟩
    · intro k entry he
      rw [hl.pendingWrites,InsertionMap.get_eq_some_iff] at he
      rw [hl.failedEntries]
      unfold eligibleKeys at heligible
      rw [List.map_eq_nil_iff,List.filter_eq_nil_iff] at heligible
      have hfailed := heligible (k,entry) he
      simpa [hasFailed] using hfailed
    · intro hown
      rw [hl.failedEntries,hown]
      by_contra hfailed
      exact (hidle.failed hfailed).2 herrors
  · rw [hl.flushes,update_of_ne hgf] at hg
    exact absurd ⟨record,hg,hscope,hstage⟩ hbefore

theorem withKeyLocks_flushes (s : State) (calls : List (StoreKey × KeyCall)) :
    (withKeyLocks s calls).flushes = s.flushes := by
  induction calls generalizing s with
  | nil => rfl
  | cons pair rest ih => exact ih (withKeyLock s pair.1 pair.2)

/-- At the step in which a flush resolves, the store is quiescent. -/
theorem step_quiescent {s s' : State} {a : Action} {f : ℕ} {scope : ScopeId} (ho : OrderOk s)
    (hs : FlushOk s) (h : step s a = some s') (hbefore : ¬FlushResolved s scope f)
    (hafter : FlushResolved s' scope f) : Quiescent s' scope f := by
  have hsame : s'.flushes ≠ s.flushes := by
    intro he
    unfold FlushResolved at hafter
    rw [he] at hafter
    exact hbefore hafter
  cases a with
  | invoke calls =>
    cases h
    exact absurd (withKeyLocks_flushes s calls) hsame
  | start k =>
    obtain ⟨_,_,_,hp⟩ := step_start_progress h
    exact absurd hp.flushes hsame
  | io k outcome =>
    obtain ⟨_,_,_,hp⟩ := step_io_progress h
    exact absurd hp.flushes hsame
  | fire timer =>
    obtain ⟨_,_,rfl⟩ := step_fire h
    exact absurd rfl hsame
  | flush =>
    cases h
    obtain ⟨call',hl⟩ := flushAll_loopStep s (.own s.fresh)
    have hidle : Idle {s with fresh := s.fresh+1} s.fresh ⟨.own s.fresh,0,[],.barrier []⟩ :=
      hs.start_idle fun g hg => by cases hg; rfl
    exact hl.quiescent hidle hbefore hafter
  | drain id =>
    cases h
    obtain ⟨call',hl⟩ := flushAll_loopStep s (.drain id)
    have hidle : Idle {s with fresh := s.fresh+1} s.fresh ⟨.drain id,0,[],.barrier []⟩ :=
      hs.start_idle fun g hg => by cases hg
    exact hl.quiescent hidle hbefore hafter
  | resume g =>
    obtain ⟨call,hf,hr⟩ := step_resume h
    obtain ⟨waited,pass,call',hstage,hsettled,hl⟩ := resumeFlush_loopStep hr
    exact hl.quiescent (hs.resume_idle ho hf hstage hsettled) hbefore hafter

/-- A file whose barrier was never touched is as the store opened it. -/
def Untouched (disk₀ : StoreKey → Option Bytes) (s : State) : Prop :=
  ∀ k, s.barrier k = .asOpened → s.disk k = disk₀ k

/-- A starting operation changes no file. -/
theorem startJob_file (s : State) (k : StoreKey) (job : Job) :
    (startJob s k job).disk = s.disk ∧ (startJob s k job).barrier = s.barrier := by
  unfold startJob
  split
  · unfold doSetLocked
    dsimp only
    split
    · exact ⟨rfl,rfl⟩
    · split <;> exact ⟨rfl,rfl⟩
  · unfold doGetLocked
    split
    · exact ⟨rfl,rfl⟩
    · dsimp only
      split <;> exact ⟨rfl,rfl⟩
  · exact ⟨rfl,rfl⟩
  · unfold flushOne
    split
    · exact ⟨rfl,rfl⟩
    · split <;> exact ⟨rfl,rfl⟩

theorem rejectWrite_file (s : State) (k : StoreKey) (job : Job) (write : Write) :
    (rejectWrite s k job write).disk = s.disk ∧ (rejectWrite s k job write).barrier = s.barrier := by
  unfold rejectWrite
  split
  · rename_i scope _ _ _
    cases scope <;> exact ⟨rfl,rfl⟩
  · exact ⟨rfl,rfl⟩

theorem restoreDeleteState_file (s : State) (k : StoreKey) (prev : Captured) :
    (restoreDeleteState s k prev).disk = s.disk ∧ (restoreDeleteState s k prev).barrier = s.barrier := by
  unfold restoreDeleteState
  cases prev.prevDurable <;> cases prev.prevPending <;> exact ⟨rfl,rfl⟩

theorem certifyWrite_file (s : State) (k : StoreKey) (job : Job) (write : Write) :
    (certifyWrite s k job write).barrier k = .complete := by
  unfold certifyWrite
  dsimp only
  split
  · exact update_self _ _ _
  · split
    · split <;> exact update_self _ _ _
    · exact update_self _ _ _

/-- An I/O end that leaves a barrier untouched leaves the file unchanged. -/
theorem ioJob_file {s s' : State} {k : StoreKey} {job : Job} {awaiting : Awaiting}
    {outcome : IoOutcome} (hio : ioJob s k job awaiting outcome = some s') :
    (s'.disk k = s.disk k ∧ s'.barrier k = s.barrier k) ∨ s'.barrier k ≠ .asOpened := by
  have hreject : ∀ write mid, mid.disk = s.disk → mid.barrier = s.barrier →
      (rejectWrite mid k job write).disk k = s.disk k ∧
        (rejectWrite mid k job write).barrier k = s.barrier k := by
    intro write mid hd hb
    obtain ⟨hdisk,hbarrier⟩ := rejectWrite_file mid k job write
    rw [hdisk,hbarrier,hd,hb]
    exact ⟨rfl,rfl⟩
  have hrestore : ∀ prev, (restoreDeleteState s k prev).disk k = s.disk k ∧
      (restoreDeleteState s k prev).barrier k = s.barrier k := by
    intro prev
    obtain ⟨hdisk,hbarrier⟩ := restoreDeleteState_file s k prev
    rw [hdisk,hbarrier]
    exact ⟨rfl,rfl⟩
  have hrename : ∀ write, (renameEffect s k write).barrier k ≠ .asOpened := by
    intro write
    simp [renameEffect]
  have hcertify : (certifyBarrier s k).barrier k ≠ .asOpened := by simp [certifyBarrier]
  unfold ioJob at hio
  split at hio
  · cases hio
    exact Or.inl ⟨rfl,rfl⟩
  · split at hio
    · cases hio
      exact Or.inl ⟨rfl,rfl⟩
    · cases hio
      exact Or.inl (hreject _ s rfl rfl)
  · cases hio
    exact Or.inl (hreject _ s rfl rfl)
  · rename_i write
    cases hio
    exact Or.inr (hrename write)
  · rename_i write
    cases hio
    exact Or.inr (hrename write)
  · cases hio
    exact Or.inl ⟨rfl,rfl⟩
  · cases hio
    refine Or.inr ?_
    rw [certifyWrite_file]
    simp
  · cases hio
    exact Or.inl ⟨rfl,rfl⟩
  · cases hio
    exact Or.inl (hreject _ _ rfl rfl)
  · split at hio
    · cases hio
      split <;> exact Or.inl ⟨rfl,rfl⟩
    · cases hio
      exact Or.inl ⟨rfl,rfl⟩
  · cases hio
    exact Or.inl ⟨rfl,rfl⟩
  · split at hio
    · cases hio
      refine Or.inr ?_
      simp [suspend]
    · cases hio
  · split at hio
    · cases hio
    · split at hio
      · cases hio
        exact Or.inl ⟨rfl,rfl⟩
      · cases hio
        exact Or.inl ⟨rfl,rfl⟩
  · cases hio
    exact Or.inl (hrestore _)
  · cases hio
    exact Or.inr hcertify
  · cases hio
    exact Or.inl (hrestore _)
  · cases hio
    exact Or.inr hcertify
  · cases hio
    exact Or.inl ⟨rfl,rfl⟩

/-- Every step keeps untouched files as they were opened. -/
theorem step_untouched {disk₀ : StoreKey → Option Bytes} {s s' : State} {a : Action}
    (hs : Untouched disk₀ s) (h : step s a = some s') : Untouched disk₀ s' := by
  intro k hb
  by_cases hk : Advances a k
  · rcases hk with rfl | ⟨outcome,rfl⟩
    · obtain ⟨job,rest,_,rfl⟩ := step_start h
      obtain ⟨hdisk,hbarrier⟩ :=
        startJob_file {s with chains := update s.chains k ⟨none,rest⟩} k job
      rw [hbarrier] at hb
      rw [hdisk]
      exact hs k hb
    · obtain ⟨job,awaiting,_,hio⟩ := step_io h
      rcases ioJob_file hio with ⟨hdisk,hbarrier⟩ | hne
      · rw [hbarrier] at hb
        rw [hdisk]
        exact hs k hb
      · exact absurd hb hne
  · have hsame := step_sameAt h hk
    rw [hsame.barrier] at hb
    rw [hsame.disk]
    exact hs k hb

/-- Without a pending write or a running mutation, bytes known to be durable
are the content of the file. -/
theorem KeyOk.durable_disk {s : State} {k : StoreKey} (hk : KeyOk s k) (hp : s.pendingWrites.get k = none)
    (hquiet : ∀ job awaiting, (s.chains k).running = some (job,awaiting) →
      ∀ call, job.op = .call call → call.mutates = false) {known : Bytes}
    (hd : s.durable.get k = some known) : s.disk k = some known := by
  have hwritten : ∀ job write, (∀ call, job.op = .call call → call.mutates = false) →
      ¬WriteOk s k job write := by
    intro job write hjob hw
    unfold WriteOk at hw
    split at hw
    · cases hjob _ hw.1
    · rw [hp] at hw
      cases hw.2.2.2.1
  have hrest : AtRest s k → s.disk k = some known := fun hr => (hr.durable_disk known hd).1
  unfold KeyOk at hk
  split at hk
  · exact hrest hk
  · rename_i job awaiting hrunning
    have hjob := hquiet job awaiting hrunning
    cases awaiting with
    | writeTmp write attempt => exact hrest hk.1
    | publishTmp write => exact hrest hk.1
    | syncDir write => exact absurd hk.1 (hwritten job write hjob)
    | unlinkTmp write => exact absurd hk.1 (hwritten job write hjob)
    | readFile keyUncertain => exact hrest hk.1
    | unlink prev => exact hrest hk.1
    | syncAbsent prev => exact hrest hk.1
    | syncUnlinked => cases hjob _ hk.1

/-- A held value is what a read returns while no mutation is running. -/
theorem Held.getResult {s : State} {k : StoreKey} {value : Bytes} (hheld : Held s k value) (hk : KeyOk s k)
    (hquiet : ∀ job awaiting, (s.chains k).running = some (job,awaiting) →
      ∀ call, job.op = .call call → call.mutates = false) : getResult s k = some value := by
  unfold BridgeStore.getResult
  unfold Held at hheld
  cases hp : s.pendingWrites.get k with
  | some entry =>
    rw [hp] at hheld
    exact congrArg some hheld
  | none =>
    rw [hp] at hheld
    have hknown : ∀ known, s.durable.get k = some known → known = value := by
      intro known hd
      have hdisk := hk.durable_disk hp hquiet hd
      rw [hheld.1] at hdisk
      exact (Option.some.inj hdisk).symm
    dsimp only
    split
    · rename_i known hd
      split at hd
      · cases hd
      · exact congrArg some (hknown known hd)
    · exact hheld.1

/-- A set acknowledged last on its key is what a read returns. -/
theorem reachable_shown {s : State} (hs : ReachableState s) {entry : Admission}
    (he : entry ∈ s.log) {value : Bytes} {answer : Option Bytes} (hcall : entry.call = .set value)
    (hr : s.results entry.id = some (.resolved answer)) (hlast : LastMutation s entry) :
    getResult s entry.key = some value := by
  have hheld := reachable_setsHeld hs entry he value answer hcall hr hlast
  refine hheld.getResult (reachable_keyOk hs entry.key) ?_
  intro job awaiting hrunning call hop
  have ho := reachable_orderOk hs
  have hfront : job ∈ jobs s entry.key := by simp [jobs,hrunning]
  have hlog := ho.queued_log entry.key job hfront call hop
  have hlt := ho.fifo entry he (by rw [hr]; simp) job hfront
  cases hm : call.mutates with
  | false => rfl
  | true => exact absurd (hlast _ hlog rfl hm) (Nat.not_le.mpr hlt)

/-- The bytes are the content of the file, nothing is pending, and the full
barrier completed for them or they are what the store found when it opened. -/
structure Persisted (disk₀ : StoreKey → Option Bytes) (s : State) (k : StoreKey)
    (value : Bytes) : Prop where
  /-- The file holds exactly the bytes. -/
  disk : s.disk k = some value
  /-- No write is pending. -/
  pending : s.pendingWrites.get k = none
  /-- The last mutation completed its barrier; without any, the bytes were
  already there. -/
  barrier : s.barrier k = .complete ∨ s.barrier k = .asOpened ∧ disk₀ k = some value

/-- The bytes are still pending although a flush resolved: their entry had
already failed in the failure set that flush shares with earlier ones. -/
def FailedInDrain (s : State) (scope : ScopeId) (k : StoreKey) (value : Bytes) : Prop :=
  ∃ pending, s.pendingWrites.get k = some pending ∧ pending.value = value ∧
    pending.object ∈ (s.scopes scope).failedEntries

/-- In every run, an acknowledged set without a later mutation is what a
read returns. Whenever a flush with its own failure set resolves, every set
that did not reject and has no later mutation of its key is persisted; a
flush that shares its failure set may leave entries that failed in it. -/
theorem flushAll_persists {disk₀ : StoreKey → Option Bytes} {labels : List Action} {s : State}
    (hr : run step (opened disk₀) labels = some s) :
    (∀ entry ∈ s.log, ∀ value answer, entry.call = .set value →
      s.results entry.id = some (.resolved answer) → LastMutation s entry →
        getResult s entry.key = some value) ∧
    ∀ a s' f scope, step s a = some s' → ¬FlushResolved s scope f → FlushResolved s' scope f →
      ∀ entry ∈ s'.log, ∀ value, entry.call = .set value →
        s'.results entry.id ≠ some .rejected → LastMutation s' entry →
          (scope = .own f → Persisted disk₀ s' entry.key value) ∧
            (Persisted disk₀ s' entry.key value ∨ FailedInDrain s' scope entry.key value) := by
  have hs : ReachableState s := ⟨opened disk₀,labels,⟨disk₀,rfl⟩,hr⟩
  constructor
  · intro entry he value answer hcall hres hlast
    exact reachable_shown hs he hcall hres hlast
  · intro a s' f scope h hbefore hafter entry he value hcall hres hlast
    have hs' : ReachableState s' := hs.next h
    have ho := reachable_orderOk hs'
    have huntouched : Untouched disk₀ s' := by
      have hstart : Untouched disk₀ s :=
        run_invariant (fun _ _ _ hp hn => step_untouched hp hn) hr fun k _ => rfl
      exact step_untouched hstart h
    have hquiet := step_quiescent (reachable_orderOk hs) (reachable_flushOk hs) h hbefore hafter
    have hsettled : ∃ answer, s'.results entry.id = some (.resolved answer) := by
      cases hout : s'.results entry.id with
      | none =>
        have hmem := ho.log_admitted entry he hout
        rw [hquiet.admitted] at hmem
        cases hmem
      | some outcome =>
        cases outcome with
        | resolved answer => exact ⟨answer,rfl⟩
        | rejected => exact absurd hout hres
    obtain ⟨answer,hsettled⟩ := hsettled
    have hheld := reachable_setsHeld hs' entry he value answer hcall hsettled hlast
    unfold Held at hheld
    cases hp : s'.pendingWrites.get entry.key with
    | some pending =>
      rw [hp] at hheld
      have hfailed := hquiet.pending entry.key pending hp
      refine ⟨fun hown => ?_,Or.inr ⟨pending,hp,hheld,hfailed⟩⟩
      rw [hquiet.own hown] at hfailed
      cases hfailed
    | none =>
      rw [hp] at hheld
      have hbarrier : s'.barrier entry.key = .complete ∨
          s'.barrier entry.key = .asOpened ∧ disk₀ entry.key = some value := by
        cases hb : s'.barrier entry.key with
        | asOpened =>
          rw [← huntouched entry.key hb]
          exact Or.inr ⟨rfl,hheld.1⟩
        | incomplete => exact absurd hb hheld.2
        | complete => exact Or.inl rfl
      have hpersisted : Persisted disk₀ s' entry.key value := ⟨hheld.1,hp,hbarrier⟩
      exact ⟨fun _ => hpersisted,Or.inl hpersisted⟩

/-- A key of the session store, which writes through. -/
def sessionKey : StoreKey := ⟨"session","a",by decide,by decide⟩

/-- A key of the token store, which debounces. -/
def tokenKey : StoreKey := ⟨"tc_token","a",by decide,by decide⟩

/-- A folder in which every key holds the same byte. -/
def sevens : StoreKey → Option Bytes := fun _ => some [7]

/-- The session key is read from its file, then set to the bytes just read. -/
def readBackRun : List Action :=
  [.invoke [(sessionKey,.get)],.start sessionKey,.io sessionKey .ok,
    .invoke [(sessionKey,.set [7])],.start sessionKey]

/-- A debounced set is admitted, started and flushed through its barrier. -/
def debouncedRun : List Action :=
  [.invoke [(tokenKey,.set [5])],.start tokenKey,.flush,.start tokenKey,
    .io tokenKey .ok,.io tokenKey .ok,.io tokenKey .ok]

theorem flushAll_persists_debounced :
    Persisted sevens (after step (opened sevens) (debouncedRun++[.resume 3])) tokenKey [5] := by
  have hr : run step (opened sevens) debouncedRun = some (after step (opened sevens) debouncedRun) :=
    run_after (by decide)
  have hflushed := (flushAll_persists hr).2 (.resume 3) _ 3 (.own 3) (step_after (by decide))
    (by decide) (by decide) ⟨0,tokenKey,.set [5]⟩ (by decide) [5] rfl (by decide) (by decide)
  exact hflushed.1 rfl

/-- A set of bytes just read back is skipped: the flush resolves although no
barrier ever completed for them. -/
theorem flushAll_skips_read_back :
    ¬∀ (disk₀ : StoreKey → Option Bytes) (labels : List Action) (s s' : State) (a : Action) (f : ℕ),
      run step (opened disk₀) labels = some s → step s a = some s' →
      ¬FlushResolved s (.own f) f → FlushResolved s' (.own f) f →
      ∀ entry ∈ s'.log, ∀ value, entry.call = .set value → entry.id < f →
        s'.results entry.id ≠ some .rejected → LastMutation s' entry →
          s'.disk entry.key = some value ∧ s'.pendingWrites.get entry.key = none ∧
            s'.barrier entry.key = .complete := by
  intro h
  have hall := h sevens readBackRun _ _ .flush 2 (run_after (by decide)) (step_after (by decide))
    (by decide) (by decide) ⟨1,sessionKey,.set [7]⟩ (by decide) [7] rfl (by decide) (by decide)
    (by decide)
  exact absurd hall.2.2 (by decide)

end Baileyrs.BridgeStore
