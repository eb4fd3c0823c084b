import Baileyrs.BridgeStoreCertificates

/-!
# Deletes of the bridge store

A delete captures what its key holds, clears it and unlinks the file. While
it is suspended nothing else changes the key, so a delete that fails before
the file changed restores what it captured. Once a delete resolved, nothing
but a set admitted after it gives the key a value again.
-/

namespace Baileyrs.BridgeStore

open LabelledRuns Function

/-- What a delete of the key captures in this state. -/
def captured (s : State) (k : StoreKey) : Captured :=
  ⟨s.pendingWrites.get k,s.durable.get k,k ∈ s.uncertain⟩

/-- The file and the uncertainty of the key are as in the first state. -/
structure FileKept (s₀ s : State) (k : StoreKey) : Prop where
  /-- Same file. -/
  disk : s.disk k = s₀.disk k
  /-- Same uncertainty. -/
  uncertain : k ∈ s.uncertain ↔ k ∈ s₀.uncertain

theorem FileKept.congr {s₀ s s' : State} {k : StoreKey} (hs : FileKept s₀ s k)
    (h : SameContent s s' k) : FileKept s₀ s' k :=
  ⟨h.disk.trans hs.disk,h.uncertain.trans hs.uncertain⟩

/-- Suspension points of a delete started in the first state. -/
def DeleteAwaiting (s₀ s : State) (k : StoreKey) : Awaiting → Prop
  | .unlink prev => prev = captured s₀ k ∧ FileKept s₀ s k
  | .syncAbsent prev => prev = captured s₀ k ∧ FileKept s₀ s k
  | .syncUnlinked => True
  | _ => False

theorem DeleteAwaiting.congr {s₀ s s' : State} {k : StoreKey} {awaiting : Awaiting}
    (hs : DeleteAwaiting s₀ s k awaiting) (h : SameContent s s' k) : DeleteAwaiting s₀ s' k awaiting := by
  cases awaiting with
  | unlink prev => exact ⟨hs.1,hs.2.congr h⟩
  | syncAbsent prev => exact ⟨hs.1,hs.2.congr h⟩
  | syncUnlinked => trivial
  | writeTmp write attempt => cases hs
  | publishTmp write => cases hs
  | syncDir write => cases hs
  | unlinkTmp write => cases hs
  | readFile keyUncertain => cases hs

/-- The delete has settled, or it is suspended with what it captured. -/
def DeleteRunning (s₀ s : State) (k : StoreKey) (job : Job) : Prop :=
  s.results job.id ≠ none ∨
    ∃ awaiting, (s.chains k).running = some (job,awaiting) ∧ DeleteAwaiting s₀ s k awaiting

/-- A started delete is suspended on its unlink. -/
theorem start_deleteRunning {s₀ s₁ : State} {k : StoreKey} {job : Job} {rest : List Job}
    (hc : s₀.chains k = ⟨none,job::rest⟩) (hop : job.op = .call .delete)
    (h : step s₀ (.start k) = some s₁) : DeleteRunning s₀ s₁ k job := by
  obtain ⟨front,tail,hc',rfl⟩ := step_start h
  rw [hc] at hc'
  cases hc'
  refine Or.inr ⟨.unlink (captured s₀ k),?_,rfl,?_⟩
  · simp [startJob,hop,doDeleteOne,suspend,captured,clearTimeout]
  · unfold startJob
    rw [hop]
    exact ⟨rfl,Iff.rfl⟩

/-- Settled promises stay settled. -/
theorem step_settled {s s' : State} {a : Action} (ho : OrderOk s) (h : step s a = some s')
    {id : ℕ} (hr : s.results id ≠ none) : s'.results id = s.results id := by
  have hprogress : ∀ k job rest, jobs s k = job::rest → Progress s s' k job rest →
      s'.results id = s.results id := fun k job rest hjobs hp => hp.settled ho hjobs hr
  cases a with
  | invoke calls =>
    cases h
    rw [withKeyLocks_results]
  | start k =>
    obtain ⟨job,rest,hjobs,hp⟩ := step_start_progress h
    exact hprogress k job rest hjobs hp
  | io k outcome =>
    obtain ⟨job,rest,hjobs,hp⟩ := step_io_progress h
    exact hprogress k job rest hjobs hp
  | fire timer =>
    obtain ⟨_,_,rfl⟩ := step_fire h
    rfl
  | flush =>
    cases h
    rw [(flushAll_frame s _).results]
  | drain id =>
    cases h
    rw [(flushAll_frame s _).results]
  | resume f =>
    obtain ⟨call,_,hr⟩ := step_resume h
    rw [(resumeFlush_frame hr).results]

/-- An unlink that failed for another reason than absence restores. -/
theorem ioJob_unlink_failed (s : State) (k : StoreKey) (job : Job) (prev : Captured)
    {outcome : IoOutcome} (hok : outcome ≠ .ok) (habsent : outcome ≠ .enoent) :
    ioJob s k job (.unlink prev) outcome = some (settle (restoreDeleteState s k prev) k job .rejected) := by
  cases outcome with
  | ok => exact absurd rfl hok
  | enoent => exact absurd rfl habsent
  | eexist => rfl
  | failed => rfl
  | failedAfterEffect => rfl

/-- A certification of absence that failed restores. -/
theorem ioJob_syncAbsent_failed (s : State) (k : StoreKey) (job : Job) (prev : Captured)
    {outcome : IoOutcome} (hok : outcome ≠ .ok) : ioJob s k job (.syncAbsent prev) outcome =
      some (settle (restoreDeleteState s k prev) k job .rejected) := by
  cases outcome with
  | ok => exact absurd rfl hok
  | enoent => rfl
  | eexist => rfl
  | failed => rfl
  | failedAfterEffect => rfl

/-- A directory sync that failed after the unlink leaves the key uncertain. -/
theorem ioJob_syncUnlinked_failed (s : State) (k : StoreKey) (job : Job)
    {outcome : IoOutcome} (hok : outcome ≠ .ok) : ioJob s k job .syncUnlinked outcome =
      some (settle {s with uncertain := insert k s.uncertain} k job .rejected) := by
  cases outcome with
  | ok => exact absurd rfl hok
  | enoent => rfl
  | eexist => rfl
  | failed => rfl
  | failedAfterEffect => rfl

/-- An unlink that removed the file goes on to sync its directory. -/
theorem ioJob_unlink_ok {s s' : State} {k : StoreKey} {job : Job} {prev : Captured}
    (hio : ioJob s k job (.unlink prev) .ok = some s') :
    s' = suspend {s with
      disk := update s.disk k none
      barrier := update s.barrier k .incomplete} k job .syncUnlinked := by
  simp only [ioJob] at hio
  split at hio
  · exact (Option.some.inj hio).symm
  · cases hio

/-- A file already absent ends the delete, or has its absence certified. -/
theorem ioJob_unlink_enoent {s s' : State} {k : StoreKey} {job : Job} {prev : Captured}
    (hio : ioJob s k job (.unlink prev) .enoent = some s') :
    s.disk k = none ∧ (prev.wasUncertain = true ∧ s' = suspend s k job (.syncAbsent prev) ∨
      s' = settle s k job (.resolved none)) := by
  simp only [ioJob] at hio
  split at hio
  · cases hio
  · rename_i hdisk
    refine ⟨Option.not_isSome_iff_eq_none.mp hdisk,?_⟩
    split at hio
    · rename_i hu
      exact Or.inl ⟨hu,(Option.some.inj hio).symm⟩
    · exact Or.inr (Option.some.inj hio).symm

/-- An I/O end keeps a delete suspended with its capture, or settles it. -/
theorem ioJob_deleteRunning {s₀ s s' : State} {k : StoreKey} {job : Job} {awaiting : Awaiting}
    {outcome : IoOutcome} (hs : DeleteAwaiting s₀ s k awaiting)
    (hio : ioJob s k job awaiting outcome = some s') : DeleteRunning s₀ s' k job := by
  have hsettled : ∀ (mid : State) result, DeleteRunning s₀ (settle mid k job result) k job := by
    intro mid result
    refine Or.inl ?_
    simp [settle]
  cases awaiting with
  | unlink prev =>
    by_cases hok : outcome = .ok
    · subst hok
      rw [ioJob_unlink_ok hio]
      exact Or.inr ⟨.syncUnlinked,by simp [suspend],trivial⟩
    · by_cases habsent : outcome = .enoent
      · subst habsent
        obtain ⟨_,⟨_,rfl⟩ | rfl⟩ := ioJob_unlink_enoent hio
        · exact Or.inr ⟨.syncAbsent prev,by simp [suspend],hs.1,hs.2.disk,hs.2.uncertain⟩
        · exact hsettled _ _
      · rw [ioJob_unlink_failed s k job prev hok habsent] at hio
        cases hio
        exact hsettled _ _
  | syncAbsent prev =>
    by_cases hok : outcome = .ok
    · subst hok
      cases hio
      exact hsettled _ _
    · rw [ioJob_syncAbsent_failed s k job prev hok] at hio
      cases hio
      exact hsettled _ _
  | syncUnlinked =>
    by_cases hok : outcome = .ok
    · subst hok
      cases hio
      exact hsettled _ _
    · rw [ioJob_syncUnlinked_failed s k job hok] at hio
      cases hio
      exact hsettled _ _
  | writeTmp write attempt => cases hs
  | publishTmp write => cases hs
  | syncDir write => cases hs
  | unlinkTmp write => cases hs
  | readFile keyUncertain => cases hs

/-- Every step keeps a delete suspended with its capture, or settles it. -/
theorem step_deleteRunning {s₀ s s' : State} {a : Action} {k : StoreKey} {job : Job}
    (ho : OrderOk s) (hs : DeleteRunning s₀ s k job) (h : step s a = some s') : DeleteRunning s₀ s' k job := by
  rcases hs with hr | ⟨awaiting,hr,hd⟩
  · refine Or.inl ?_
    rw [step_settled ho h hr]
    exact hr
  · by_cases hk : Advances a k
    · rcases hk with rfl | ⟨outcome,rfl⟩
      · obtain ⟨front,tail,hc,_⟩ := step_start h
        rw [hc] at hr
        cases hr
      · obtain ⟨front,waiting,hr',hio⟩ := step_io h
        rw [hr] at hr'
        cases hr'
        exact ioJob_deleteRunning hd hio
    · have hsame := step_sameAt h hk
      exact Or.inr ⟨awaiting,hsame.running.trans hr,hd.congr hsame.toSameContent⟩

/-- The key reads and flushes as in the first state, its pending entry back
with an armed timer. -/
structure Restored (s₀ s : State) (k : StoreKey) : Prop where
  /-- Same read. -/
  read : getResult s k = getResult s₀ k
  /-- Same pending bytes of the same entry. -/
  pending : (s.pendingWrites.get k).map (fun entry => (entry.object,entry.value)) =
    (s₀.pendingWrites.get k).map fun entry => (entry.object,entry.value)
  /-- The entry is flushed by an armed timer. -/
  live : ∀ entry, s.pendingWrites.get k = some entry →
    ∃ timer, entry.timer = some timer ∧ timer ∈ s.timers
  /-- Same file. -/
  disk : s.disk k = s₀.disk k

/-- Restoring a capture brings back the state it was taken in. -/
theorem restoreDeleteState_restored {s₀ s : State} {k : StoreKey}
    (hkept : FileKept s₀ s k) (hpending : s.pendingWrites.get k = none) (hdurable : s.durable.get k = none) :
    Restored s₀ (restoreDeleteState s k (captured s₀ k)) k := by
  have hknown : ∀ next : State, next.pendingWrites.get k = none →
      next.disk k = s.disk k → (k ∈ next.uncertain ↔ k ∈ s.uncertain) →
      next.durable.get k = s₀.durable.get k → s₀.pendingWrites.get k = none →
      getResult next k = getResult s₀ k := by
    intro next hp hd hu hk hp₀
    unfold getResult
    rw [hp,hp₀,hd,hkept.disk,hk]
    have hiff : k ∈ next.uncertain ↔ k ∈ s₀.uncertain := hu.trans hkept.uncertain
    simp only [hiff]
  unfold restoreDeleteState captured
  dsimp only
  cases hp₀ : s₀.pendingWrites.get k with
  | some entry =>
    have hput : ∀ mid : State, (armTimer mid k entry).pendingWrites.get k =
        some {entry with timer := some ⟨mid.fresh,k⟩} := by
      intro mid
      exact InsertionMap.get_set_self _ _ _
    refine ⟨?_,?_,?_,?_⟩
    · unfold getResult
      dsimp only
      rw [hput,hp₀]
    · dsimp only
      rw [hput,hp₀]
      rfl
    · intro other he
      dsimp only at he
      rw [hput] at he
      cases he
      exact ⟨_,rfl,List.mem_append_right _ List.mem_cons_self⟩
    · cases hd : s₀.durable.get k with
      | none => exact hkept.disk
      | some value => exact hkept.disk
  | none =>
    dsimp only
    cases hd : s₀.durable.get k with
    | none =>
      refine ⟨hknown s hpending rfl Iff.rfl (hdurable.trans hd.symm) hp₀,?_,?_,hkept.disk⟩
      · rw [hpending,hp₀]
      · intro entry he
        cases hpending.symm.trans he
    | some value =>
      have hback := rememberDurable_get s k value
      refine ⟨hknown _ hpending rfl Iff.rfl (hback.trans hd.symm) hp₀,?_,?_,hkept.disk⟩
      · change (s.pendingWrites.get k).map _ = _
        rw [hpending,hp₀]
      · intro entry he
        cases hpending.symm.trans he

/-- No set of the key was admitted after this operation. -/
def NoLaterSet (s : State) (k : StoreKey) (id : ℕ) : Prop :=
  ∀ entry ∈ s.log, entry.key = k → id < entry.id → ∀ value, entry.call ≠ .set value

/-- Suspension points that cannot give the key a value. -/
def GoneAwaiting : Awaiting → Prop
  | .readFile _ => True
  | .unlink prev => prev.prevPending = none ∧ prev.prevDurable = none
  | .syncAbsent prev => prev.prevPending = none ∧ prev.prevDurable = none
  | .syncUnlinked => True
  | _ => False

/-- The key has no value in memory or on disk, and no operation that runs
or waits on it can give it one. -/
structure Gone (s : State) (k : StoreKey) (id : ℕ) : Prop where
  /-- No file. -/
  disk : s.disk k = none
  /-- Nothing pending. -/
  pending : s.pendingWrites.get k = none
  /-- Nothing known to be durable. -/
  durable : s.durable.get k = none
  /-- Everything queued came later. -/
  later : ∀ job ∈ jobs s k, id < job.id
  /-- The suspended operation cannot write. -/
  running : ∀ job awaiting, (s.chains k).running = some (job,awaiting) → GoneAwaiting awaiting
  /-- Later reads found nothing. -/
  reads : ∀ entry ∈ s.log, entry.key = k → id < entry.id → entry.call = .get →
    ∀ answer, s.results entry.id = some (.resolved answer) → answer = none

/-- A key without a value reads as absent. -/
theorem Gone.getResult {s : State} {k : StoreKey} {id : ℕ} (hs : Gone s k id) : getResult s k = none := by
  unfold BridgeStore.getResult
  rw [hs.pending,hs.durable,hs.disk]
  simp

theorem withKeyLocks_log (s : State) (calls : List (StoreKey × KeyCall)) :
    ∃ extra, (withKeyLocks s calls).log = s.log++extra ∧ s.fresh ≤ (withKeyLocks s calls).fresh ∧
      ∀ entry ∈ extra, s.fresh ≤ entry.id := by
  induction calls generalizing s with
  | nil => exact ⟨[],(List.append_nil _).symm,le_rfl,fun entry he => by cases he⟩
  | cons pair rest ih =>
    obtain ⟨extra,hlog,hfresh,hextra⟩ := ih (withKeyLock s pair.1 pair.2)
    have hone : s.fresh ≤ (withKeyLock s pair.1 pair.2).fresh := Nat.le_succ _
    refine ⟨⟨s.fresh,pair.1,pair.2⟩::extra,?_,hone.trans hfresh,?_⟩
    · rw [List.append_cons]
      exact hlog
    · intro entry he
      rcases List.mem_cons.mp he with rfl | he
      · exact le_rfl
      · exact hone.trans (hextra entry he)

/-- Admissions are only added to the log, and a new one has not settled. -/
theorem step_log {s s' : State} {a : Action} (ho : OrderOk s) (h : step s a = some s') :
    (∀ entry ∈ s.log, entry ∈ s'.log) ∧ ∀ entry ∈ s'.log, s'.results entry.id ≠ none → entry ∈ s.log := by
  have hsame : s'.log = s.log → (∀ entry ∈ s.log, entry ∈ s'.log) ∧
      ∀ entry ∈ s'.log, s'.results entry.id ≠ none → entry ∈ s.log := by
    intro hlog
    rw [hlog]
    exact ⟨fun _ he => he,fun _ he _ => he⟩
  cases a with
  | invoke calls =>
    cases h
    obtain ⟨extra,hlog,_,hextra⟩ := withKeyLocks_log s calls
    rw [hlog,withKeyLocks_results]
    refine ⟨fun entry he => List.mem_append_left _ he,?_⟩
    intro entry he hr
    rcases List.mem_append.mp he with h | h
    · exact h
    · exact absurd (hextra entry h) (Nat.not_le.mpr (ho.results_fresh entry.id hr))
  | start k =>
    obtain ⟨_,_,_,hp⟩ := step_start_progress h
    exact hsame hp.log
  | io k outcome =>
    obtain ⟨_,_,_,hp⟩ := step_io_progress h
    exact hsame hp.log
  | fire timer =>
    obtain ⟨_,_,rfl⟩ := step_fire h
    exact hsame rfl
  | flush =>
    cases h
    exact hsame (flushAll_frame s _).log
  | drain id =>
    cases h
    exact hsame (flushAll_frame s _).log
  | resume f =>
    obtain ⟨call,_,hr⟩ := step_resume h
    exact hsame (resumeFlush_frame hr).log

theorem withKeyLocks_queued (s : State) (calls : List (StoreKey × KeyCall)) (k : StoreKey) :
    ∀ job ∈ jobs (withKeyLocks s calls) k, job ∈ jobs s k ∨ s.fresh ≤ job.id := by
  induction calls generalizing s with
  | nil => exact fun job hj => Or.inl hj
  | cons pair rest ih =>
    intro job hj
    rcases ih (withKeyLock s pair.1 pair.2) job hj with h | h
    · rcases mem_jobs_enqueue h with h | rfl
      · exact Or.inl h
      · exact Or.inr le_rfl
    · exact Or.inr ((Nat.le_succ _).trans h)

/-- Jobs found on a chain after a step are old, or have a new identity. -/
theorem step_queued {s s' : State} {a : Action} (h : step s a = some s') (k : StoreKey) :
    ∀ job ∈ jobs s' k, job ∈ jobs s k ∨ s.fresh ≤ job.id := by
  intro job hj
  have hprogress : ∀ other front tail, jobs s other = front::tail →
      Progress s s' other front tail → job ∈ jobs s k :=
    fun _ _ _ hjobs hp => hp.queued hjobs k job hj
  cases a with
  | invoke calls =>
    cases h
    exact withKeyLocks_queued s calls k job hj
  | start other =>
    obtain ⟨front,tail,hjobs,hp⟩ := step_start_progress h
    exact Or.inl (hprogress other front tail hjobs hp)
  | io other outcome =>
    obtain ⟨front,tail,hjobs,hp⟩ := step_io_progress h
    exact Or.inl (hprogress other front tail hjobs hp)
  | fire timer =>
    obtain ⟨_,_,rfl⟩ := step_fire h
    rcases mem_jobs_enqueue hj with h | rfl
    · exact Or.inl h
    · exact Or.inr le_rfl
  | flush =>
    cases h
    obtain ⟨call',hl⟩ := flushAll_loopStep s (.own s.fresh)
    rcases hl.queued k job hj with h | ⟨hfresh,_⟩
    · exact Or.inl h
    · exact Or.inr ((Nat.le_succ _).trans hfresh)
  | drain id =>
    cases h
    obtain ⟨call',hl⟩ := flushAll_loopStep s (.drain id)
    rcases hl.queued k job hj with h | ⟨hfresh,_⟩
    · exact Or.inl h
    · exact Or.inr ((Nat.le_succ _).trans hfresh)
  | resume f =>
    obtain ⟨call,_,hr⟩ := step_resume h
    obtain ⟨_,_,call',_,_,hl⟩ := resumeFlush_loopStep hr
    rcases hl.queued k job hj with h | ⟨hfresh,_⟩
    · exact Or.inl h
    · exact Or.inr hfresh

/-- A step that does not run the key's operation keeps it without a value. -/
theorem Gone.idle {s s' : State} {a : Action} {k : StoreKey} {id : ℕ} (hs : Gone s k id)
    (ho : OrderOk s) (hid : id < s.fresh) (h : step s a = some s') (hk : ¬Advances a k) :
    Gone s' k id where
  disk := (step_sameAt h hk).disk.trans hs.disk
  pending := (step_sameAt h hk).pending.trans hs.pending
  durable := by
    rcases (step_sameAt h hk).durable with hd | hd
    · exact hd.trans hs.durable
    · exact hd
  later job hj := by
    rcases step_queued h k job hj with h | h
    · exact hs.later job h
    · exact hid.trans_le h
  running job awaiting hr := hs.running job awaiting ((step_sameAt h hk).running ▸ hr)
  reads entry he hkey hlater hcall answer hr := by
    have hsettled : s'.results entry.id ≠ none := by
      rw [hr]
      simp
    have hold := (step_log ho h).2 entry he hsettled
    by_cases hbefore : s.results entry.id = none
    · rcases step_settles_front ho h hold hbefore hsettled with ⟨ha,_⟩ | ⟨_,outcome,ha,_⟩
      · exact absurd (Or.inl (hkey ▸ ha)) hk
      · exact absurd (Or.inr ⟨outcome,hkey ▸ ha⟩) hk
    · rw [step_settled ho h hbefore] at hr
      exact hs.reads entry hold hkey hlater hcall answer hr

/-- The end of an operation that leaves its key without a value. -/
structure GoneEnd (s : State) (k : StoreKey) (job : Job) : Prop where
  /-- No file. -/
  disk : s.disk k = none
  /-- Nothing pending. -/
  pending : s.pendingWrites.get k = none
  /-- Nothing known to be durable. -/
  durable : s.durable.get k = none
  /-- The suspended operation cannot write. -/
  running : ∀ job awaiting, (s.chains k).running = some (job,awaiting) → GoneAwaiting awaiting
  /-- It did not resolve with a value. -/
  result : ∀ answer, s.results job.id = some (.resolved answer) → answer = none

theorem settle_goneEnd {s : State} {k : StoreKey} (job : Job) (hdisk : s.disk k = none)
    (hpending : s.pendingWrites.get k = none) (hdurable : s.durable.get k = none)
    {outcome : Outcome} (hout : ∀ answer, outcome = .resolved answer → answer = none) :
    GoneEnd (settle s k job outcome) k job where
  disk := hdisk
  pending := hpending
  durable := hdurable
  running other awaiting hr := by simp [settle] at hr
  result answer hr := by
    simp only [settle,update_self,Option.some.injEq] at hr
    exact hout answer hr

theorem suspend_goneEnd {s : State} {k : StoreKey} {job : Job} {awaiting : Awaiting}
    (hdisk : s.disk k = none) (hpending : s.pendingWrites.get k = none)
    (hdurable : s.durable.get k = none) (hunsettled : s.results job.id = none)
    (ha : GoneAwaiting awaiting) : GoneEnd (suspend s k job awaiting) k job where
  disk := hdisk
  pending := hpending
  durable := hdurable
  running other awaiting' hr := by
    simp only [suspend,update_self,Option.some.injEq,Prod.mk.injEq] at hr
    exact hr.2 ▸ ha
  result answer hr := by
    simp [suspend,hunsettled] at hr

/-- An operation other than a set that starts on a key without a value. -/
theorem startJob_goneEnd {s : State} {k : StoreKey} {job : Job} (hdisk : s.disk k = none)
    (hpending : s.pendingWrites.get k = none) (hdurable : s.durable.get k = none)
    (hunsettled : s.results job.id = none) (hop : ∀ value, job.op ≠ .call (.set value)) :
    GoneEnd (startJob s k job) k job := by
  unfold startJob
  split
  · rename_i value ho
    exact absurd ho (hop value)
  · unfold doGetLocked
    rw [hpending]
    dsimp only
    split
    · rename_i value hknown
      split at hknown
      · cases hknown
      · rw [hdurable] at hknown
        cases hknown
    · exact suspend_goneEnd hdisk hpending hdurable hunsettled trivial
  · unfold doDeleteOne
    exact suspend_goneEnd hdisk (InsertionMap.get_delete_self _ _)
      (InsertionMap.get_delete_self _ _) hunsettled ⟨hpending,hdurable⟩
  · unfold flushOne
    rw [hpending]
    refine settle_goneEnd job hdisk hpending hdurable ?_
    intro answer ha
    cases ha
    rfl

/-- Restoring an empty capture changes nothing. -/
theorem restoreDeleteState_empty (s : State) (k : StoreKey) {prev : Captured}
    (hpending : prev.prevPending = none) (hdurable : prev.prevDurable = none) : restoreDeleteState s k prev = s := by
  unfold restoreDeleteState
  rw [hpending,hdurable]

/-- An operation that continues on a key without a value. -/
theorem ioJob_goneEnd {s s' : State} {k : StoreKey} {job : Job} {awaiting : Awaiting}
    {outcome : IoOutcome} (hdisk : s.disk k = none) (hpending : s.pendingWrites.get k = none)
    (hdurable : s.durable.get k = none) (hunsettled : s.results job.id = none)
    (ha : GoneAwaiting awaiting) (hio : ioJob s k job awaiting outcome = some s') : GoneEnd s' k job := by
  have hresolved : ∀ answer, Outcome.resolved none = .resolved answer → answer = none := by
    intro answer h
    cases h
    rfl
  have hrejected : ∀ answer, Outcome.rejected = .resolved answer → answer = none := by
    intro answer h
    cases h
  cases awaiting with
  | readFile keyUncertain =>
    cases outcome with
    | ok =>
      simp only [ioJob,hdisk] at hio
      cases hio
      exact settle_goneEnd job hdisk hpending hdurable hresolved
    | enoent =>
      cases hio
      exact settle_goneEnd job hdisk hpending hdurable hrejected
    | eexist =>
      cases hio
      exact settle_goneEnd job hdisk hpending hdurable hrejected
    | failed =>
      cases hio
      exact settle_goneEnd job hdisk hpending hdurable hrejected
    | failedAfterEffect =>
      cases hio
      exact settle_goneEnd job hdisk hpending hdurable hrejected
  | unlink prev =>
    by_cases hok : outcome = .ok
    · subst hok
      simp [ioJob,hdisk] at hio
    · by_cases habsent : outcome = .enoent
      · subst habsent
        obtain ⟨_,⟨_,rfl⟩ | rfl⟩ := ioJob_unlink_enoent hio
        · exact suspend_goneEnd hdisk hpending hdurable hunsettled ha
        · exact settle_goneEnd job hdisk hpending hdurable hresolved
      · rw [ioJob_unlink_failed s k job prev hok habsent,
          restoreDeleteState_empty s k ha.1 ha.2] at hio
        cases hio
        exact settle_goneEnd job hdisk hpending hdurable hrejected
  | syncAbsent prev =>
    by_cases hok : outcome = .ok
    · subst hok
      cases hio
      exact settle_goneEnd (s := certifyBarrier s k) job hdisk hpending hdurable hresolved
    · rw [ioJob_syncAbsent_failed s k job prev hok,restoreDeleteState_empty s k ha.1 ha.2] at hio
      cases hio
      exact settle_goneEnd job hdisk hpending hdurable hrejected
  | syncUnlinked =>
    by_cases hok : outcome = .ok
    · subst hok
      cases hio
      exact settle_goneEnd (s := certifyBarrier s k) job hdisk hpending hdurable hresolved
    · rw [ioJob_syncUnlinked_failed s k job hok] at hio
      cases hio
      exact settle_goneEnd (s := {s with uncertain := insert k s.uncertain}) job hdisk hpending
        hdurable hrejected
  | writeTmp write attempt => cases ha
  | publishTmp write => cases ha
  | syncDir write => cases ha
  | unlinkTmp write => cases ha

/-- The key's own operation keeps it without a value. -/
theorem Gone.advance {s s' : State} {k : StoreKey} {job : Job} {rest : List Job} {id : ℕ}
    (hs : Gone s k id) (hjobs : jobs s k = job::rest) (hp : Progress s s' k job rest)
    (he : GoneEnd s' k job) : Gone s' k id where
  disk := he.disk
  pending := he.pending
  durable := he.durable
  later other ho := hs.later other (hp.queued hjobs k other ho)
  running := he.running
  reads entry hentry hkey hlater hcall answer hr := by
    rw [hp.log] at hentry
    by_cases hid : entry.id = job.id
    · rw [hid] at hr
      exact he.result answer hr
    · rw [hp.results_of_ne hid] at hr
      exact hs.reads entry hentry hkey hlater hcall answer hr

/-- Without a later set, every step keeps the key without a value. -/
theorem step_gone {s s' : State} {a : Action} {k : StoreKey} {id : ℕ} (ho : OrderOk s)
    (hid : id < s.fresh) (hs : Gone s k id) (hset : NoLaterSet s k id) (h : step s a = some s') : Gone s' k id := by
  by_cases hk : Advances a k
  · rcases hk with rfl | ⟨outcome,rfl⟩
    · obtain ⟨front,tail,hjobs,hp⟩ := step_start_progress h
      obtain ⟨job,rest,hc,rfl⟩ := step_start h
      have hfront : front = job := by
        unfold jobs at hjobs
        rw [hc] at hjobs
        exact (List.cons.inj hjobs).1.symm
      subst hfront
      have hmem : front ∈ jobs s k := hjobs ▸ List.mem_cons_self
      refine hs.advance hjobs hp (startJob_goneEnd hs.disk hs.pending hs.durable
        (ho.jobs_unsettled k front hmem) ?_)
      intro value hop
      exact hset _ (ho.queued_log k front hmem _ hop) rfl (hs.later front hmem) value rfl
    · obtain ⟨front,tail,hjobs,hp⟩ := step_io_progress h
      obtain ⟨job,awaiting,hr,hio⟩ := step_io h
      have hfront : front = job := by
        unfold jobs at hjobs
        rw [hr] at hjobs
        exact (List.cons.inj hjobs).1.symm
      subst hfront
      have hmem : front ∈ jobs s k := hjobs ▸ List.mem_cons_self
      exact hs.advance hjobs hp (ioJob_goneEnd hs.disk hs.pending hs.durable
        (ho.jobs_unsettled k front hmem) (hs.running front awaiting hr) hio)
  · exact hs.idle ho hid h hk

/-- A resolved delete leaves its key without a value. -/
theorem resolved_gone {s s' : State} {a : Action} {k : StoreKey} {job : Job}
    {awaiting : Awaiting} {answer : Option Bytes} (ho : OrderOk s) (hk : KeyOk s k)
    (hop : job.op = .call .delete) (hrunning : (s.chains k).running = some (job,awaiting))
    (hopen : s.results job.id = none) (h : step s a = some s')
    (hr : s'.results job.id = some (.resolved answer)) : Gone s' k job.id := by
  have hmem : job ∈ jobs s k := by simp [jobs,hrunning]
  have hlog := ho.queued_log k job hmem .delete hop
  have hjob : (⟨job.id,.call .delete⟩ : Job) = job := by
    rw [← hop]
  have hsettled : s'.results job.id ≠ none := by
    rw [hr]
    simp
  have hio : ∃ outcome, a = .io k outcome ∧ ioJob s k job awaiting outcome = some s' := by
    rcases step_settles_front ho h hlog hopen hsettled with ⟨_,rest,hc,_⟩ | ⟨front,outcome,ha,hf,hio⟩
    · rw [hc] at hrunning
      cases hrunning
    · have hpair := Option.some.inj (hrunning.symm.trans hf)
      have hfront : awaiting = front := congrArg Prod.snd hpair
      subst hfront
      dsimp only at hio
      rw [hjob] at hio
      exact ⟨outcome,ha,hio⟩
  obtain ⟨outcome,rfl,hio⟩ := hio
  unfold KeyOk at hk
  rw [hrunning] at hk
  have hwrite : ∀ write, ¬WriteOk s k job write := by
    intro write hw
    unfold WriteOk at hw
    rw [hop] at hw
    split at hw
    · cases hw.1
    · obtain ⟨⟨scope,hflush⟩,_⟩ := hw
      cases hflush
  have hresult : ∀ answer, Outcome.resolved none = .resolved answer → answer = none := by
    intro answer h
    cases h
    rfl
  have hend : GoneEnd s' k job := by
    cases awaiting with
    | unlink prev =>
      by_cases hok : outcome = .ok
      · subst hok
        rw [ioJob_unlink_ok hio] at hr
        simp [suspend,hopen] at hr
      · by_cases habsent : outcome = .enoent
        · subst habsent
          obtain ⟨hdisk,⟨_,rfl⟩ | rfl⟩ := ioJob_unlink_enoent hio
          · simp [suspend,hopen] at hr
          · exact settle_goneEnd job hdisk hk.2.pending hk.2.durable hresult
        · rw [ioJob_unlink_failed s k job prev hok habsent] at hio
          cases hio
          simp [settle] at hr
    | syncAbsent prev =>
      by_cases hok : outcome = .ok
      · subst hok
        cases hio
        exact settle_goneEnd (s := certifyBarrier s k) job hk.2.2.1 hk.2.1.pending hk.2.1.durable
          hresult
      · rw [ioJob_syncAbsent_failed s k job prev hok] at hio
        cases hio
        simp [settle] at hr
    | syncUnlinked =>
      by_cases hok : outcome = .ok
      · subst hok
        cases hio
        exact settle_goneEnd (s := certifyBarrier s k) job hk.2.2.2 hk.2.1 hk.2.2.1 hresult
      · rw [ioJob_syncUnlinked_failed s k job hok] at hio
        cases hio
        simp [settle] at hr
    | writeTmp write attempt => exact absurd hk.2 (hwrite write)
    | publishTmp write => exact absurd hk.2 (hwrite write)
    | syncDir write => exact absurd hk.1 (hwrite write)
    | unlinkTmp write => exact absurd hk.1 (hwrite write)
    | readFile keyUncertain =>
      have hget := hk.2.1
      rw [hop] at hget
      cases hget
  obtain ⟨front,tail,hjobs,hp⟩ := step_io_progress h
  have hfront : front = job := by
    unfold jobs at hjobs
    rw [hrunning] at hjobs
    exact (List.cons.inj hjobs).1.symm
  subst hfront
  have hsorted := ho.jobs_sorted k
  rw [hjobs,List.pairwise_cons] at hsorted
  have htail : jobs s' k = tail := by
    rcases hp.outcome with ⟨_,hresults,_⟩ | ⟨_,htail,_⟩
    · rw [hresults,hopen] at hsettled
      exact absurd rfl hsettled
    · exact htail
  refine ⟨hend.disk,hend.pending,hend.durable,?_,hend.running,?_⟩
  · rw [htail]
    exact hsorted.1
  · intro entry he hkey hlater _ other hres
    have hne : s'.results entry.id ≠ none := by
      rw [hres]
      simp
    have hold := (step_log ho h).2 entry he hne
    by_cases hbefore : s.results entry.id = none
    · rcases step_settles_front ho h hold hbefore hne with ⟨ha,_⟩ | ⟨_,_,_,hf,_⟩
      · cases ha
      · rw [hkey,hrunning] at hf
        have hid := congrArg (fun pair => pair.1.id) (Option.some.inj hf)
        exact absurd hid (Nat.ne_of_lt hlater)
    · have hfifo := ho.fifo entry hold hbefore front (hkey ▸ hmem)
      exact absurd hlater (Nat.lt_asymm hfifo)

/-- A settled operation whose key is without a value leaves it so over every
run that admits no later set. -/
theorem run_gone {s s' : State} {labels : List Action} {k : StoreKey} {id : ℕ} (ho : OrderOk s)
    (hs : Gone s k id) (hsettled : s.results id ≠ none) (hr : run step s labels = some s')
    (hset : NoLaterSet s' k id) : Gone s' k id := by
  have hall : (NoLaterSet s' k id → Gone s' k id) ∧ OrderOk s' ∧ s'.results id ≠ none := by
    refine run_invariant (P := fun s => (NoLaterSet s k id → Gone s k id) ∧ OrderOk s ∧
      s.results id ≠ none) ?_ hr ⟨fun _ => hs,ho,hsettled⟩
    rintro mid a next ⟨hgone,hmid,hdone⟩ hstep
    refine ⟨fun hnext => ?_,step_orderOk hmid hstep,?_⟩
    · have hbefore : NoLaterSet mid k id := fun entry he =>
        hnext entry ((step_log hmid hstep).1 entry he)
      exact step_gone hmid (hmid.results_fresh id hdone) (hgone hbefore) hbefore hstep
    · rw [step_settled hmid hstep hdone]
      exact hdone
  exact hall.1 hset

/-- A delete that starts in a reachable state and has not settled yet is
suspended on its unlink or a directory sync. If the unlink fails other than
by absence, or the file was absent while the key was uncertain and the sync
fails, it rejects and restores the state it started in. If the sync after
its unlink fails, it rejects with the key uncertain and without a value.
Once it resolves, the key has no value in any run that admits no later set,
and every read admitted after it finds none. -/
theorem delete_outcomes {s₀ s₁ s : State} {k : StoreKey} {job : Job} {rest : List Job}
    {labels : List Action} (hs : ReachableState s₀) (hc : s₀.chains k = ⟨none,job::rest⟩)
    (hop : job.op = .call .delete) (h₁ : step s₀ (.start k) = some s₁)
    (hr : run step s₁ labels = some s) (hopen : s.results job.id = none) :
    (∃ awaiting, (s.chains k).running = some (job,awaiting) ∧
      ∀ outcome s', step s (.io k outcome) = some s' →
        match awaiting with
        | .unlink _ => outcome ≠ .ok → outcome ≠ .enoent →
            s'.results job.id = some .rejected ∧ Restored s₀ s' k
        | .syncAbsent _ => k ∈ s.uncertain ∧ s.disk k = none ∧ (outcome ≠ .ok →
            s'.results job.id = some .rejected ∧ Restored s₀ s' k)
        | .syncUnlinked => s.disk k = none ∧ (outcome ≠ .ok →
            s'.results job.id = some .rejected ∧ k ∈ s'.uncertain ∧
              s'.pendingWrites.get k = none ∧ getResult s' k = none)
        | _ => False) ∧
    ∀ a s' answer, step s a = some s' → s'.results job.id = some (.resolved answer) →
      ∀ later last, run step s' later = some last → NoLaterSet last k job.id →
        getResult last k = none ∧ last.pendingWrites.get k = none ∧
          ∀ entry ∈ last.log, entry.key = k → job.id < entry.id → entry.call = .get →
            ∀ value, last.results entry.id = some (.resolved value) → value = none := by
  have hs₁ : ReachableState s₁ := hs.next h₁
  have hreach : ReachableState s := hs₁.run hr
  have hk := reachable_keyOk hreach k
  have hdelete : DeleteRunning s₀ s k job := by
    have hall : DeleteRunning s₀ s k job ∧ OrderOk s := by
      refine run_invariant (P := fun s => DeleteRunning s₀ s k job ∧ OrderOk s) ?_ hr
        ⟨start_deleteRunning hc hop h₁,reachable_orderOk hs₁⟩
      rintro mid a next ⟨hd,ho⟩ hstep
      exact ⟨step_deleteRunning ho hd hstep,step_orderOk ho hstep⟩
    exact hall.1
  constructor
  · obtain ⟨awaiting,hrunning,hawaiting⟩ := hdelete.resolve_left (not_not.mpr hopen)
    refine ⟨awaiting,hrunning,?_⟩
    intro outcome s' h
    obtain ⟨front,suspended,hr',hio⟩ := step_io h
    rw [hrunning] at hr'
    cases hr'
    unfold KeyOk at hk
    rw [hrunning] at hk
    cases awaiting with
    | unlink prev =>
      intro hok habsent
      obtain ⟨rfl,hkept⟩ := hawaiting
      rw [ioJob_unlink_failed s k job _ hok habsent] at hio
      cases hio
      have hrestored := restoreDeleteState_restored hkept hk.2.pending hk.2.durable
      exact ⟨by simp [settle],hrestored.read,hrestored.pending,hrestored.live,hrestored.disk⟩
    | syncAbsent prev =>
      obtain ⟨rfl,hkept⟩ := hawaiting
      refine ⟨hk.2.1.uncertain.mp hk.2.2.2,hk.2.2.1,?_⟩
      intro hok
      rw [ioJob_syncAbsent_failed s k job _ hok] at hio
      cases hio
      have hrestored := restoreDeleteState_restored hkept hk.2.1.pending hk.2.1.durable
      exact ⟨by simp [settle],hrestored.read,hrestored.pending,hrestored.live,hrestored.disk⟩
    | syncUnlinked =>
      obtain ⟨_,hpending,hdurable,hdisk⟩ := hk
      refine ⟨hdisk,?_⟩
      intro hok
      rw [ioJob_syncUnlinked_failed s k job hok] at hio
      cases hio
      refine ⟨by simp [settle],Finset.mem_insert_self k s.uncertain,hpending,?_⟩
      unfold getResult
      simp only [settle,hpending,hdurable,hdisk]
      simp
    | writeTmp write attempt => cases hawaiting
    | publishTmp write => cases hawaiting
    | syncDir write => cases hawaiting
    | unlinkTmp write => cases hawaiting
    | readFile keyUncertain => cases hawaiting
  · intro a s' answer h hres later last hlater hset
    obtain ⟨awaiting,hrunning,_⟩ := hdelete.resolve_left (not_not.mpr hopen)
    have hgone := resolved_gone (reachable_orderOk hreach) hk hop hrunning hopen h hres
    have hlast := run_gone (reachable_orderOk (hreach.next h)) hgone (by rw [hres]; simp) hlater hset
    exact ⟨hlast.getResult,hlast.pending,hlast.reads⟩

/-- A delete of an existing file, up to its directory sync. -/
def deleteRun : List Action :=
  [.invoke [(tokenKey,.delete)],.start tokenKey,.io tokenKey .ok]

theorem delete_outcomes_unlinked :
    getResult (after step (opened sevens) (deleteRun++[.io tokenKey .ok])) tokenKey = none := by
  have hs : ReachableState (after step (opened sevens) [.invoke [(tokenKey,.delete)]]) :=
    ⟨opened sevens,_,⟨sevens,rfl⟩,run_after (by decide)⟩
  have hr : run step (after step (opened sevens) [.invoke [(tokenKey,.delete)],.start tokenKey])
      [.io tokenKey .ok] = some (after step (opened sevens) deleteRun) := by
    refine (run_after (by decide)).trans (congrArg some ?_)
    rfl
  have hc : (after step (opened sevens) [.invoke [(tokenKey,.delete)]]).chains tokenKey =
      ⟨none,[⟨0,.call .delete⟩]⟩ := by decide
  have hset : NoLaterSet (after step (opened sevens) (deleteRun++[.io tokenKey .ok])) tokenKey 0 := by
    have hlog : (after step (opened sevens) (deleteRun++[.io tokenKey .ok])).log =
        [⟨0,tokenKey,.delete⟩] := by decide
    intro entry he _ hlater
    rw [hlog,List.mem_singleton] at he
    subst he
    exact absurd hlater (Nat.lt_irrefl 0)
  have hdeleted := delete_outcomes hs hc rfl (step_after (by decide)) hr (by decide)
  exact (hdeleted.2 (.io tokenKey .ok) _ none (step_after (by decide)) (by decide) [] _ rfl hset).1

end Baileyrs.BridgeStore
