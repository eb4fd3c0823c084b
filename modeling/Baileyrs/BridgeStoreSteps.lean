import Baileyrs.BridgeStoreKeys

/-!
# Steps of the bridge store, seen from one key

Only the start or the I/O of a key's own chain changes what the store holds
for it; admissions, timers and flush loops append to chains. Every reachable
state is therefore consistent at every key. Starting and continuing a job
ends in one of three shapes: it suspends, it settles, or it settles rejected
after recording a failed entry.
-/

namespace Baileyrs.BridgeStore

open LabelledRuns Function

/-- Steps that run a key's own operation. -/
def Advances (a : Action) (k : StoreKey) : Prop := a = .start k ∨ ∃ outcome, a = .io k outcome

theorem withKeyLock_sameAt (s : State) (k other : StoreKey) (call : KeyCall) :
    SameAt s (withKeyLock s k call) other := by
  have h : SameAt s (enqueue s k (.call call)) other := enqueue_sameAt s k (.call call)
  exact ⟨⟨h.pending,h.uncertain,h.disk,h.barrier,h.durable⟩,h.running⟩

theorem withKeyLocks_sameAt (s : State) (calls : List (StoreKey × KeyCall)) (other : StoreKey) :
    SameAt s (withKeyLocks s calls) other := by
  induction calls generalizing s with
  | nil => exact SameAt.refl s other
  | cons pair rest ih => exact (withKeyLock_sameAt s pair.1 other pair.2).trans (ih _)

theorem flushKeys_sameAt (s : State) (scope : ScopeId) (keys : List StoreKey)
    (other : StoreKey) : SameAt s (flushKeys s scope keys).1 other := by
  induction keys generalizing s with
  | nil => exact SameAt.refl s other
  | cons k rest ih => exact (enqueue_sameAt s k _).trans (ih _)

theorem setFlush_sameAt (s : State) (f : ℕ) (call : FlushCall) (other : StoreKey) :
    SameAt s (setFlush s f call) other := ⟨⟨rfl,Iff.rfl,rfl,rfl,Or.inl rfl⟩,rfl⟩

theorem finishFlush_sameAt (s : State) (f : ℕ) (call : FlushCall) (other : StoreKey) :
    SameAt s (finishFlush s f call) other := by
  unfold finishFlush
  split
  · exact setFlush_sameAt s f _ other
  · split
    · exact ⟨⟨rfl,Iff.rfl,rfl,rfl,Or.inl rfl⟩,rfl⟩
    · exact setFlush_sameAt s f _ other

theorem drainPending_sameAt (s : State) (f : ℕ) (call : FlushCall) (other : StoreKey) :
    SameAt s (drainPending s f call) other := by
  unfold drainPending
  split
  · split
    · exact finishFlush_sameAt s f _ other
    · split
      · exact setFlush_sameAt s f _ other
      · exact finishFlush_sameAt s f _ other
  · exact (flushKeys_sameAt s _ _ other).trans (setFlush_sameAt _ f _ other)

theorem flushPass_sameAt (s : State) (f : ℕ) (call : FlushCall) (other : StoreKey) :
    SameAt s (flushPass s f call) other := by
  unfold flushPass
  split
  · split
    · exact drainPending_sameAt s f _ other
    · exact setFlush_sameAt s f _ other
  · exact finishFlush_sameAt s f _ other

theorem flushAll_sameAt (s : State) (scope : ScopeId) (other : StoreKey) : SameAt s (flushAll s scope) other := by
  have hstarted : SameAt s {s with fresh := s.fresh+1} other :=
    ⟨⟨rfl,Iff.rfl,rfl,rfl,Or.inl rfl⟩,rfl⟩
  unfold flushAll
  dsimp only
  split
  · exact hstarted.trans (setFlush_sameAt _ _ _ other)
  · exact hstarted.trans (flushPass_sameAt _ _ _ other)

theorem resumeFlush_sameAt {s s' : State} {f : ℕ} {call : FlushCall} {other : StoreKey}
    (h : resumeFlush s f call = some s') : SameAt s s' other := by
  unfold resumeFlush at h
  split at h
  · split at h
    · cases h
      exact drainPending_sameAt s f _ other
    · cases h
  · split at h
    · dsimp only at h
      split at h
      · cases h
        exact finishFlush_sameAt s f _ other
      · cases h
        exact flushPass_sameAt s f _ other
    · cases h
  · cases h

/-- An accepted start takes the first waiting operation of an idle chain. -/
theorem step_start {s s' : State} {k : StoreKey} (h : step s (.start k) = some s') :
    ∃ job rest, s.chains k = ⟨none,job::rest⟩ ∧
      s' = startJob {s with chains := update s.chains k ⟨none,rest⟩} k job := by
  simp only [step] at h
  split at h
  · rename_i job rest hr hw
    cases h
    refine ⟨job,rest,?_,rfl⟩
    rw [← hr,← hw]
  · cases h

/-- An accepted I/O end continues the suspended operation. -/
theorem step_io {s s' : State} {k : StoreKey} {outcome : IoOutcome} (h : step s (.io k outcome) = some s') :
    ∃ job awaiting, (s.chains k).running = some (job,awaiting) ∧ ioJob s k job awaiting outcome = some s' := by
  simp only [step] at h
  split at h
  · rename_i job awaiting hr
    exact ⟨job,awaiting,hr,h⟩
  · cases h

/-- A timer fires only when armed and not between microtasks of its key. -/
theorem step_fire {s s' : State} {timer : TimerHandle} (h : step s (.fire timer) = some s') :
    timer ∈ s.timers ∧ ((s.chains timer.key).running = none → (s.chains timer.key).waiting = []) ∧
      s' = enqueue (clearTimeout s (some timer)) timer.key (.flushOne none) := by
  simp only [step] at h
  split at h
  · cases h
  · rename_i hguard
    cases h
    rw [not_or,not_not] at hguard
    refine ⟨hguard.1,fun hr => ?_,rfl⟩
    by_contra hw
    exact hguard.2 ⟨hr,hw⟩

/-- A flush continues only from a recorded call. -/
theorem step_resume {s s' : State} {f : ℕ} (h : step s (.resume f) = some s') :
    ∃ call, s.flushes f = some call ∧ resumeFlush s f call = some s' := by
  simp only [step] at h
  split at h
  · rename_i call hf
    exact ⟨call,hf,h⟩
  · cases h

/-- Dequeuing for a start changes nothing but the chain. -/
theorem dequeue_sameContent (s : State) (k other : StoreKey) (chain : Chain) :
    SameContent s {s with chains := update s.chains k chain} other :=
  ⟨rfl,Iff.rfl,rfl,rfl,Or.inl rfl⟩

/-- A step that does not run a key's own operation leaves the key as it was. -/
theorem step_sameAt {s s' : State} {a : Action} {k : StoreKey} (h : step s a = some s')
    (hk : ¬Advances a k) : SameAt s s' k := by
  cases a with
  | invoke calls =>
    cases h
    exact withKeyLocks_sameAt s calls k
  | start other =>
    have hne : other ≠ k := fun he => hk (Or.inl (he ▸ rfl))
    obtain ⟨job,rest,_,rfl⟩ := step_start h
    refine SameAt.trans ?_ (startJob_sameAt _ job hne)
    exact ⟨dequeue_sameContent s other k _,by simp [hne.symm]⟩
  | io other outcome =>
    have hne : other ≠ k := fun he => hk (Or.inr ⟨outcome,he ▸ rfl⟩)
    obtain ⟨job,awaiting,_,hio⟩ := step_io h
    exact ioJob_sameAt hio hne
  | fire timer =>
    obtain ⟨_,_,rfl⟩ := step_fire h
    exact (clearTimeout_sameAt s _).trans (enqueue_sameAt _ _ _)
  | flush =>
    cases h
    exact flushAll_sameAt s _ k
  | drain id =>
    cases h
    exact flushAll_sameAt s _ k
  | resume f =>
    obtain ⟨call,_,hr⟩ := step_resume h
    exact resumeFlush_sameAt hr

/-- The front of an idle chain starts from a key at rest. -/
theorem KeyOk.dequeued {s : State} {k : StoreKey} (hs : KeyOk s k) {waiting rest : List Job}
    (hc : s.chains k = ⟨none,waiting⟩) : AtRest {s with chains := update s.chains k ⟨none,rest⟩} k := by
  unfold KeyOk at hs
  rw [hc] at hs
  exact AtRest.congr hs (dequeue_sameContent s k k _)

/-- Every step keeps every key consistent. -/
theorem step_keyOk {s s' : State} {a : Action} (hs : ∀ k, KeyOk s k) (h : step s a = some s')
    (k : StoreKey) : KeyOk s' k := by
  by_cases hk : Advances a k
  · rcases hk with rfl | ⟨outcome,rfl⟩
    · obtain ⟨job,rest,hc,rfl⟩ := step_start h
      exact startJob_keyOk ((hs k).dequeued hc) job
    · obtain ⟨job,awaiting,hr,hio⟩ := step_io h
      have hsuspended := hs k
      unfold KeyOk at hsuspended
      rw [hr] at hsuspended
      exact ioJob_keyOk hsuspended hio
  · exact (hs k).congr (step_sameAt h hk)

/-- A store just opened knows nothing. -/
theorem opened_keyOk (disk : StoreKey → Option Bytes) (k : StoreKey) : KeyOk (opened disk) k where
  uncertain_durable _ := rfl
  durable_disk value hv := by cases hv
  certain_barrier _ := by simp [opened]
  critical_pending _ := rfl
  timer_key entry timer he := by cases he

/-- Every reachable state is consistent at every key. -/
theorem reachable_keyOk {s : State} (hs : ReachableState s) (k : StoreKey) : KeyOk s k := by
  have hall : ∀ k, KeyOk s k := hs.invariant (P := fun s => ∀ k, KeyOk s k)
    (fun s hi k => by
      obtain ⟨disk,rfl⟩ := hi
      exact opened_keyOk disk k)
    (fun s a next hk hn k => step_keyOk hk hn k)
  exact hall k

/-- The second state differs from the first in contents and timers only. -/
structure Bookkeeping (s s' : State) : Prop where
  /-- Identities are only consumed. -/
  fresh : s.fresh ≤ s'.fresh
  /-- Same chains. -/
  chains : s'.chains = s.chains
  /-- Same tracked operations. -/
  admitted : s'.admitted = s.admitted
  /-- Same settled promises. -/
  results : s'.results = s.results
  /-- Same admissions. -/
  log : s'.log = s.log
  /-- Same flushes. -/
  flushes : s'.flushes = s.flushes
  /-- Same failure sets. -/
  scopes : s'.scopes = s.scopes

theorem Bookkeeping.refl (s : State) : Bookkeeping s s := ⟨le_rfl,rfl,rfl,rfl,rfl,rfl,rfl⟩

/-- The ways a job's step can end. -/
inductive JobStep (s : State) (k : StoreKey) (job : Job) (s' : State) : Prop where
  | suspended (mid : State) (awaiting : Awaiting)
      (h : s' = suspend mid k job awaiting) (hm : Bookkeeping s mid)
  | settled (mid : State) (outcome : Outcome)
      (h : s' = settle mid k job outcome) (hm : Bookkeeping s mid)
  | failed (mid : State) (scope : Option ScopeId) (entry : PendingEntry)
      (hop : job.op = .flushOne scope)
      (h : s' = settle (addFailed mid scope entry) k job .rejected) (hm : Bookkeeping s mid)

theorem rejectWrite_jobStep {s mid : State} (hm : Bookkeeping s mid) (k : StoreKey) (job : Job)
    (write : Write) : JobStep s k job (rejectWrite mid k job write) := by
  unfold rejectWrite
  split
  · rename_i scope entry hop _
    exact .failed mid scope entry hop rfl hm
  · exact .settled mid _ rfl hm

theorem restoreDeleteState_bookkeeping (s : State) (k : StoreKey) (prev : Captured) :
    Bookkeeping s (restoreDeleteState s k prev) := by
  unfold restoreDeleteState
  cases prev.prevDurable <;> cases prev.prevPending
  · exact Bookkeeping.refl s
  · exact ⟨Nat.le_succ _,rfl,rfl,rfl,rfl,rfl,rfl⟩
  · exact ⟨le_rfl,rfl,rfl,rfl,rfl,rfl,rfl⟩
  · exact ⟨Nat.le_succ _,rfl,rfl,rfl,rfl,rfl,rfl⟩

theorem certifyWrite_jobStep (s : State) (k : StoreKey) (job : Job) (write : Write) :
    JobStep s k job (certifyWrite s k job write) := by
  unfold certifyWrite
  dsimp only
  split
  · exact .settled _ _ rfl ⟨le_rfl,rfl,rfl,rfl,rfl,rfl,rfl⟩
  · refine .settled _ _ rfl ?_
    split
    · split <;> exact ⟨le_rfl,rfl,rfl,rfl,rfl,rfl,rfl⟩
    · exact ⟨le_rfl,rfl,rfl,rfl,rfl,rfl,rfl⟩

theorem startJob_jobStep (s : State) (k : StoreKey) (job : Job) : JobStep s k job (startJob s k job) := by
  unfold startJob
  split
  · unfold doSetLocked
    dsimp only
    split
    · exact .settled s _ rfl (Bookkeeping.refl s)
    · split
      · exact .suspended _ _ rfl ⟨le_rfl,rfl,rfl,rfl,rfl,rfl,rfl⟩
      · exact .settled _ _ rfl ⟨Nat.le_add_right _ 2,rfl,rfl,rfl,rfl,rfl,rfl⟩
  · unfold doGetLocked
    split
    · exact .settled s _ rfl (Bookkeeping.refl s)
    · dsimp only
      split
      · exact .settled s _ rfl (Bookkeeping.refl s)
      · exact .suspended s _ rfl (Bookkeeping.refl s)
  · exact .suspended _ _ rfl ⟨le_rfl,rfl,rfl,rfl,rfl,rfl,rfl⟩
  · unfold flushOne
    split
    · exact .settled s _ rfl (Bookkeeping.refl s)
    · split
      · exact .settled s _ rfl (Bookkeeping.refl s)
      · exact .suspended _ _ rfl ⟨le_rfl,rfl,rfl,rfl,rfl,rfl,rfl⟩

theorem ioJob_jobStep {s s' : State} {k : StoreKey} {job : Job} {awaiting : Awaiting}
    {outcome : IoOutcome} (hio : ioJob s k job awaiting outcome = some s') : JobStep s k job s' := by
  have hsame := Bookkeeping.refl s
  unfold ioJob at hio
  split at hio
  · cases hio
    exact .suspended s _ rfl hsame
  · split at hio
    · cases hio
      exact .suspended s _ rfl hsame
    · cases hio
      exact rejectWrite_jobStep hsame k job _
  · cases hio
    exact rejectWrite_jobStep hsame k job _
  · cases hio
    exact .suspended _ _ rfl ⟨le_rfl,rfl,rfl,rfl,rfl,rfl,rfl⟩
  · cases hio
    exact .suspended _ _ rfl ⟨le_rfl,rfl,rfl,rfl,rfl,rfl,rfl⟩
  · cases hio
    exact .suspended s _ rfl hsame
  · cases hio
    exact certifyWrite_jobStep s k job _
  · cases hio
    exact .suspended s _ rfl hsame
  · cases hio
    refine rejectWrite_jobStep ?_ k job _
    exact ⟨le_rfl,rfl,rfl,rfl,rfl,rfl,rfl⟩
  · split at hio
    · cases hio
      refine .settled _ _ rfl ?_
      split
      · exact hsame
      · exact ⟨le_rfl,rfl,rfl,rfl,rfl,rfl,rfl⟩
    · cases hio
      exact .settled s _ rfl hsame
  · cases hio
    exact .settled s _ rfl hsame
  · split at hio
    · cases hio
      exact .suspended _ _ rfl ⟨le_rfl,rfl,rfl,rfl,rfl,rfl,rfl⟩
    · cases hio
  · split at hio
    · cases hio
    · split at hio
      · cases hio
        exact .suspended s _ rfl hsame
      · cases hio
        exact .settled s _ rfl hsame
  · cases hio
    exact .settled _ _ rfl (restoreDeleteState_bookkeeping s k _)
  · cases hio
    exact .settled _ _ rfl ⟨le_rfl,rfl,rfl,rfl,rfl,rfl,rfl⟩
  · cases hio
    exact .settled _ _ rfl (restoreDeleteState_bookkeeping s k _)
  · cases hio
    exact .settled _ _ rfl ⟨le_rfl,rfl,rfl,rfl,rfl,rfl,rfl⟩
  · cases hio
    exact .settled _ _ rfl ⟨le_rfl,rfl,rfl,rfl,rfl,rfl,rfl⟩

end Baileyrs.BridgeStore
