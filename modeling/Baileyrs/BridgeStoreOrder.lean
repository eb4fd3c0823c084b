import Baileyrs.BridgeStoreSteps
import Mathlib.Data.List.Pairwise

/-!
# Admission order of the bridge store

Identities grow with time, a chain holds its jobs in that order, and an
admission either settled or is still queued on its own key's chain. An
operation that settled therefore came before everything still queued on its
key: chains are first in, first out.
-/

namespace Baileyrs.BridgeStore

open LabelledRuns Function

/-- Suspended and waiting jobs of a chain, front first. -/
def jobs (s : State) (k : StoreKey) : List Job :=
  ((s.chains k).running.map Prod.fst).toList++(s.chains k).waiting

/-- Identities, chains and admissions agree. -/
structure OrderOk (s : State) : Prop where
  /-- Queued identities are used up. -/
  jobs_fresh : ∀ k, ∀ job ∈ jobs s k, job.id < s.fresh
  /-- Chains hold their jobs in order of identity. -/
  jobs_sorted : ∀ k, (jobs s k).Pairwise fun a b => a.id < b.id
  /-- A job is queued on one chain. -/
  jobs_disjoint : ∀ k other, ∀ job ∈ jobs s k, ∀ job' ∈ jobs s other, job.id = job'.id → k = other
  /-- A queued job has not settled. -/
  jobs_unsettled : ∀ k, ∀ job ∈ jobs s k, s.results job.id = none
  /-- A settled identity is used up. -/
  results_fresh : ∀ id, s.results id ≠ none → id < s.fresh
  /-- Admitted identities are used up. -/
  log_fresh : ∀ entry ∈ s.log, entry.id < s.fresh
  /-- Admissions have distinct identities, oldest first. -/
  log_sorted : s.log.Pairwise fun a b => a.id < b.id
  /-- An admission that has not settled is queued on its key. -/
  log_queued : ∀ entry ∈ s.log, s.results entry.id = none →
    ⟨entry.id,.call entry.call⟩ ∈ jobs s entry.key
  /-- A queued call was admitted on its key. -/
  queued_log : ∀ k, ∀ job ∈ jobs s k, ∀ call, job.op = .call call → ⟨job.id,k,call⟩ ∈ s.log
  /-- An admission that has not settled is tracked. -/
  log_admitted : ∀ entry ∈ s.log, s.results entry.id = none → entry.id ∈ s.admitted
  /-- Operations of one key settle in admission order. -/
  fifo : ∀ entry ∈ s.log, s.results entry.id ≠ none → ∀ job ∈ jobs s entry.key, entry.id < job.id

/-- Facts that only change contents keep the order. -/
theorem OrderOk.congr {s s' : State} (hs : OrderOk s) (hfresh : s.fresh ≤ s'.fresh)
    (hchains : s'.chains = s.chains) (hadmitted : s'.admitted = s.admitted)
    (hresults : s'.results = s.results) (hlog : s'.log = s.log) : OrderOk s' := by
  have hjobs : ∀ k, jobs s' k = jobs s k := by
    intro k
    unfold jobs
    rw [hchains]
  constructor
  · intro k job hj
    rw [hjobs] at hj
    exact (hs.jobs_fresh k job hj).trans_le hfresh
  · intro k
    rw [hjobs]
    exact hs.jobs_sorted k
  · intro k other job hj job' hj' he
    rw [hjobs] at hj hj'
    exact hs.jobs_disjoint k other job hj job' hj' he
  · intro k job hj
    rw [hjobs] at hj
    rw [hresults]
    exact hs.jobs_unsettled k job hj
  · intro id hr
    rw [hresults] at hr
    exact (hs.results_fresh id hr).trans_le hfresh
  · intro entry he
    rw [hlog] at he
    exact (hs.log_fresh entry he).trans_le hfresh
  · rw [hlog]
    exact hs.log_sorted
  · intro entry he hr
    rw [hlog] at he
    rw [hresults] at hr
    rw [hjobs]
    exact hs.log_queued entry he hr
  · intro k job hj call hop
    rw [hjobs] at hj
    rw [hlog]
    exact hs.queued_log k job hj call hop
  · intro entry he hr
    rw [hlog] at he
    rw [hresults] at hr
    rw [hadmitted]
    exact hs.log_admitted entry he hr
  · intro entry he hr job hj
    rw [hlog] at he
    rw [hresults] at hr
    rw [hjobs] at hj
    exact hs.fifo entry he hr job hj

/-- Entries added to the log when a promise function is queued. -/
def admission (id : ℕ) (k : StoreKey) : JobOp → List Admission
  | .call call => [⟨id,k,call⟩]
  | .flushOne _ => []

theorem mem_admission {id : ℕ} {k : StoreKey} {op : JobOp} {entry : Admission} :
    entry ∈ admission id k op ↔ entry.id = id ∧ entry.key = k ∧ op = .call entry.call := by
  cases op with
  | call call =>
    simp only [admission,List.mem_singleton,JobOp.call.injEq]
    constructor
    · rintro rfl
      exact ⟨rfl,rfl,rfl⟩
    · rintro ⟨rfl,rfl,rfl⟩
      rfl
  | flushOne scope => simp [admission]

/-- A queued job joins the end of its chain and changes no other chain. -/
theorem jobs_enqueue (s : State) (k other : StoreKey) (op : JobOp) : jobs (enqueue s k op) other =
      if other = k then jobs s k++[⟨s.fresh,op⟩] else jobs s other := by
  by_cases h : other = k
  · subst h
    simp [jobs,enqueue]
  · simp [jobs,enqueue,h]

/-- Queuing a promise function with its log entry keeps the order. -/
theorem OrderOk.append {s s' : State} (hs : OrderOk s) (k : StoreKey) (op : JobOp)
    (hfresh : s'.fresh = s.fresh+1) (hchains : s'.chains = (enqueue s k op).chains)
    (hadmitted : s'.admitted = s.admitted++(admission s.fresh k op).map Admission.id)
    (hresults : s'.results = s.results) (hlog : s'.log = s.log++admission s.fresh k op) : OrderOk s' := by
  have hjobs : ∀ other, jobs s' other =
      if other = k then jobs s k++[⟨s.fresh,op⟩] else jobs s other := by
    intro other
    rw [← jobs_enqueue]
    unfold jobs
    rw [hchains]
  have hmem : ∀ other job, job ∈ jobs s' other →
      job ∈ jobs s other ∨ other = k ∧ job = ⟨s.fresh,op⟩ := by
    intro other job hj
    rw [hjobs] at hj
    split at hj
    · rename_i he
      subst he
      rcases List.mem_append.mp hj with h | h
      · exact Or.inl h
      · exact Or.inr ⟨rfl,List.mem_singleton.mp h⟩
    · exact Or.inl hj
  have hold : ∀ other job, job ∈ jobs s other → job ∈ jobs s' other := by
    intro other job hj
    rw [hjobs]
    split
    · rename_i he
      exact List.mem_append_left _ (he ▸ hj)
    · exact hj
  have hnew : s.results s.fresh = none := by
    by_contra hr
    exact Nat.lt_irrefl _ (hs.results_fresh _ hr)
  have hlogmem : ∀ entry, entry ∈ s'.log →
      entry ∈ s.log ∨ entry.id = s.fresh ∧ entry.key = k ∧ op = .call entry.call := by
    intro entry he
    rw [hlog] at he
    rcases List.mem_append.mp he with h | h
    · exact Or.inl h
    · exact Or.inr (mem_admission.mp h)
  constructor
  · intro other job hj
    rw [hfresh]
    rcases hmem other job hj with h | ⟨_,rfl⟩
    · exact Nat.lt_succ_of_lt (hs.jobs_fresh other job h)
    · exact Nat.lt_succ_self _
  · intro other
    rw [hjobs]
    split
    · refine List.pairwise_append.mpr ⟨hs.jobs_sorted k,List.pairwise_singleton _ _,?_⟩
      intro job hj new hn
      rw [List.mem_singleton.mp hn]
      exact hs.jobs_fresh k job hj
    · exact hs.jobs_sorted other
  · intro first second job hj job' hj' he
    rcases hmem first job hj with h | ⟨rfl,rfl⟩ <;> rcases hmem second job' hj' with h' | ⟨rfl,rfl⟩
    · exact hs.jobs_disjoint first second job h job' h' he
    · exact absurd he (Nat.ne_of_lt (hs.jobs_fresh first job h))
    · exact absurd he.symm (Nat.ne_of_lt (hs.jobs_fresh second job' h'))
    · rfl
  · intro other job hj
    rw [hresults]
    rcases hmem other job hj with h | ⟨_,rfl⟩
    · exact hs.jobs_unsettled other job h
    · exact hnew
  · intro id hr
    rw [hresults] at hr
    rw [hfresh]
    exact Nat.lt_succ_of_lt (hs.results_fresh id hr)
  · intro entry he
    rw [hfresh]
    rcases hlogmem entry he with h | ⟨h,_,_⟩
    · exact Nat.lt_succ_of_lt (hs.log_fresh entry h)
    · exact h ▸ Nat.lt_succ_self _
  · rw [hlog]
    refine List.pairwise_append.mpr ⟨hs.log_sorted,?_,?_⟩
    · cases op <;> simp [admission]
    · intro entry he new hn
      rw [(mem_admission.mp hn).1]
      exact hs.log_fresh entry he
  · intro entry he hr
    rw [hresults] at hr
    rcases hlogmem entry he with h | ⟨hid,hkey,hop⟩
    · exact hold _ _ (hs.log_queued entry h hr)
    · rw [hjobs,if_pos hkey,hid,← hop]
      exact List.mem_append_right _ (List.mem_singleton_self _)
  · intro other job hj call hop
    rw [hlog]
    rcases hmem other job hj with h | ⟨rfl,rfl⟩
    · exact List.mem_append_left _ (hs.queued_log other job h call hop)
    · exact List.mem_append_right _ (mem_admission.mpr ⟨rfl,rfl,hop⟩)
  · intro entry he hr
    rw [hresults] at hr
    rw [hadmitted]
    rcases hlogmem entry he with h | ⟨hid,hkey,hop⟩
    · exact List.mem_append_left _ (hs.log_admitted entry h hr)
    · exact List.mem_append_right _ (List.mem_map.mpr
        ⟨entry,mem_admission.mpr ⟨hid,hkey,hop⟩,rfl⟩)
  · intro entry he hr job hj
    rw [hresults] at hr
    rcases hlogmem entry he with h | ⟨hid,_,_⟩
    · rcases hmem _ job hj with hj' | ⟨_,rfl⟩
      · exact hs.fifo entry h hr job hj'
      · exact hs.log_fresh entry h
    · rw [hid] at hr
      exact absurd hnew hr

theorem enqueue_flushOne_orderOk {s : State} (hs : OrderOk s) (k : StoreKey)
    (scope : Option ScopeId) : OrderOk (enqueue s k (.flushOne scope)) :=
  hs.append k (.flushOne scope) rfl rfl (by simp [enqueue,admission]) rfl
    (by simp [enqueue,admission])

theorem withKeyLock_orderOk {s : State} (hs : OrderOk s) (k : StoreKey) (call : KeyCall) :
    OrderOk (withKeyLock s k call) := hs.append k (.call call) rfl rfl rfl rfl rfl

theorem withKeyLocks_orderOk {s : State} (hs : OrderOk s)
    (calls : List (StoreKey × KeyCall)) : OrderOk (withKeyLocks s calls) := by
  induction calls generalizing s with
  | nil => exact hs
  | cons pair rest ih => exact ih (withKeyLock_orderOk hs pair.1 pair.2)

theorem flushKeys_orderOk {s : State} (hs : OrderOk s) (scope : ScopeId)
    (keys : List StoreKey) : OrderOk (flushKeys s scope keys).1 := by
  induction keys generalizing s with
  | nil => exact hs
  | cons k rest ih => exact ih (enqueue_flushOne_orderOk hs k (some scope))

theorem setFlush_orderOk {s : State} (hs : OrderOk s) (f : ℕ) (call : FlushCall) :
    OrderOk (setFlush s f call) := hs.congr le_rfl rfl rfl rfl rfl

theorem finishFlush_orderOk {s : State} (hs : OrderOk s) (f : ℕ) (call : FlushCall) :
    OrderOk (finishFlush s f call) := by
  unfold finishFlush
  split
  · exact setFlush_orderOk hs f _
  · split
    · exact hs.congr le_rfl rfl rfl rfl rfl
    · exact setFlush_orderOk hs f _

theorem drainPending_orderOk {s : State} (hs : OrderOk s) (f : ℕ) (call : FlushCall) :
    OrderOk (drainPending s f call) := by
  unfold drainPending
  split
  · split
    · exact finishFlush_orderOk hs f _
    · split
      · exact setFlush_orderOk hs f _
      · exact finishFlush_orderOk hs f _
  · exact setFlush_orderOk (flushKeys_orderOk hs _ _) f _

theorem flushPass_orderOk {s : State} (hs : OrderOk s) (f : ℕ) (call : FlushCall) : OrderOk (flushPass s f call) := by
  unfold flushPass
  split
  · split
    · exact drainPending_orderOk hs f _
    · exact setFlush_orderOk hs f _
  · exact finishFlush_orderOk hs f _

theorem flushAll_orderOk {s : State} (hs : OrderOk s) (scope : ScopeId) : OrderOk (flushAll s scope) := by
  have hstarted : OrderOk {s with fresh := s.fresh+1} :=
    hs.congr (Nat.le_succ _) rfl rfl rfl rfl
  unfold flushAll
  dsimp only
  split
  · exact setFlush_orderOk hstarted _ _
  · exact flushPass_orderOk hstarted _ _

theorem resumeFlush_orderOk {s s' : State} {f : ℕ} {call : FlushCall} (hs : OrderOk s)
    (h : resumeFlush s f call = some s') : OrderOk s' := by
  unfold resumeFlush at h
  split at h
  · split at h
    · cases h
      exact drainPending_orderOk hs f _
    · cases h
  · split at h
    · dsimp only at h
      split at h
      · cases h
        exact finishFlush_orderOk hs f _
      · cases h
        exact flushPass_orderOk hs f _
    · cases h
  · cases h

/-- The front of a chain moves: the job stays, or it settles and leaves. -/
structure Progress (s s' : State) (k : StoreKey) (job : Job) (rest : List Job) : Prop where
  /-- Identities are only consumed. -/
  fresh : s.fresh ≤ s'.fresh
  /-- Same admissions. -/
  log : s'.log = s.log
  /-- Same flushes. -/
  flushes : s'.flushes = s.flushes
  /-- Other chains are unchanged. -/
  others : ∀ other, other ≠ k → jobs s' other = jobs s other
  /-- The job is still the front of its chain, or it settled. -/
  outcome : (jobs s' k = job::rest ∧ s'.results = s.results ∧ s'.admitted = s.admitted) ∨
    ∃ outcome, jobs s' k = rest ∧ s'.results = update s.results job.id (some outcome) ∧
      s'.admitted = s.admitted.filter (· ≠ job.id)

/-- The shapes of a job's step move the front of its chain. -/
theorem JobStep.progress {s dequeued s' : State} {k : StoreKey} {job : Job} {rest : List Job}
    (h : JobStep dequeued k job s') (hd : Bookkeeping {s with chains := dequeued.chains} dequeued)
    (hothers : ∀ other, other ≠ k → dequeued.chains other = s.chains other)
    (hwaiting : (dequeued.chains k).waiting = rest) : Progress s s' k job rest := by
  cases h with
  | suspended mid awaiting he hm =>
    subst he
    refine ⟨hd.fresh.trans hm.fresh,hm.log.trans hd.log,hm.flushes.trans hd.flushes,?_,
      Or.inl ⟨?_,hm.results.trans hd.results,hm.admitted.trans hd.admitted⟩⟩
    · intro other ho
      simp [jobs,suspend,ho,hm.chains,hothers other ho]
    · simp [jobs,suspend,hm.chains,hwaiting]
  | settled mid outcome he hm =>
    subst he
    refine ⟨hd.fresh.trans hm.fresh,hm.log.trans hd.log,hm.flushes.trans hd.flushes,?_,
      Or.inr ⟨outcome,?_,?_,?_⟩⟩
    · intro other ho
      simp [jobs,settle,ho,hm.chains,hothers other ho]
    · simp [jobs,settle,hm.chains,hwaiting]
    · simp [settle,hm.results,hd.results]
    · simp [settle,hm.admitted,hd.admitted]
  | failed mid scope entry hop he hm =>
    subst he
    refine ⟨?_,?_,?_,?_,Or.inr ⟨.rejected,?_,?_,?_⟩⟩
    · cases scope <;> exact hd.fresh.trans hm.fresh
    · cases scope <;> exact hm.log.trans hd.log
    · cases scope <;> exact hm.flushes.trans hd.flushes
    · intro other ho
      cases scope <;> simp [jobs,settle,addFailed,ho,hm.chains,hothers other ho]
    · cases scope <;> simp [jobs,settle,addFailed,hm.chains,hwaiting]
    · cases scope <;> simp [settle,addFailed,hm.results,hd.results]
    · cases scope <;> simp [settle,addFailed,hm.admitted,hd.admitted]

/-- An accepted start moves the front of its chain. -/
theorem step_start_progress {s s' : State} {k : StoreKey} (h : step s (.start k) = some s') :
    ∃ job rest, jobs s k = job::rest ∧ Progress s s' k job rest := by
  obtain ⟨job,rest,hc,rfl⟩ := step_start h
  refine ⟨job,rest,by simp [jobs,hc],?_⟩
  refine (startJob_jobStep _ k job).progress ⟨le_rfl,rfl,rfl,rfl,rfl,rfl,rfl⟩ ?_ ?_
  · intro other ho
    simp [ho]
  · simp

/-- An accepted I/O end moves the front of its chain. -/
theorem step_io_progress {s s' : State} {k : StoreKey} {outcome : IoOutcome}
    (h : step s (.io k outcome) = some s') : ∃ job rest, jobs s k = job::rest ∧ Progress s s' k job rest := by
  obtain ⟨job,awaiting,hr,hio⟩ := step_io h
  refine ⟨job,(s.chains k).waiting,by simp [jobs,hr],?_⟩
  exact (ioJob_jobStep hio).progress ⟨le_rfl,rfl,rfl,rfl,rfl,rfl,rfl⟩ (fun _ _ => rfl) rfl

/-- A chain gets no jobs when the front of a chain moves. -/
theorem Progress.queued {s s' : State} {k : StoreKey} {job : Job} {rest : List Job}
    (hp : Progress s s' k job rest) (hjobs : jobs s k = job::rest) :
    ∀ other queued, queued ∈ jobs s' other → queued ∈ jobs s other := by
  intro other queued hq
  by_cases hother : other = k
  · subst hother
    rcases hp.outcome with ⟨hk,_⟩ | ⟨_,hk,_⟩
    · rwa [hjobs,← hk]
    · rw [hk] at hq
      rw [hjobs]
      exact List.mem_cons_of_mem _ hq
  · rwa [hp.others other hother] at hq

/-- Only the front of the chain can settle. -/
theorem Progress.results_of_ne {s s' : State} {k : StoreKey} {job : Job} {rest : List Job}
    (hp : Progress s s' k job rest) {id : ℕ} (hid : id ≠ job.id) : s'.results id = s.results id := by
  rcases hp.outcome with ⟨_,hresults,_⟩ | ⟨_,_,hresults,_⟩
  · rw [hresults]
  · rw [hresults,update_of_ne hid]

/-- What is settled stays settled when the front of a chain moves. -/
theorem Progress.settled {s s' : State} {k : StoreKey} {job : Job} {rest : List Job}
    (hp : Progress s s' k job rest) (hs : OrderOk s) (hjobs : jobs s k = job::rest) {id : ℕ}
    (hr : s.results id ≠ none) : s'.results id = s.results id := by
  have hne : id ≠ job.id := by
    rintro rfl
    exact hr (hs.jobs_unsettled k job (hjobs ▸ List.mem_cons_self))
  exact hp.results_of_ne hne

/-- Moving the front of a chain keeps the order. -/
theorem Progress.orderOk {s s' : State} {k : StoreKey} {job : Job} {rest : List Job}
    (hp : Progress s s' k job rest) (hs : OrderOk s) (hjobs : jobs s k = job::rest) : OrderOk s' := by
  have hfront : job ∈ jobs s k := by simp [hjobs]
  rcases hp.outcome with ⟨hk,hresults,hadmitted⟩ | ⟨outcome,hk,hresults,hadmitted⟩
  · have hsame : ∀ other, jobs s' other = jobs s other := by
      intro other
      by_cases ho : other = k
      · rw [ho,hk,hjobs]
      · exact hp.others other ho
    constructor
    · intro other queued hq
      rw [hsame] at hq
      exact (hs.jobs_fresh other queued hq).trans_le hp.fresh
    · intro other
      rw [hsame]
      exact hs.jobs_sorted other
    · intro first second queued hq queued' hq' he
      rw [hsame] at hq hq'
      exact hs.jobs_disjoint first second queued hq queued' hq' he
    · intro other queued hq
      rw [hsame] at hq
      rw [hresults]
      exact hs.jobs_unsettled other queued hq
    · intro id hr
      rw [hresults] at hr
      exact (hs.results_fresh id hr).trans_le hp.fresh
    · intro entry he
      rw [hp.log] at he
      exact (hs.log_fresh entry he).trans_le hp.fresh
    · rw [hp.log]
      exact hs.log_sorted
    · intro entry he hr
      rw [hp.log] at he
      rw [hresults] at hr
      rw [hsame]
      exact hs.log_queued entry he hr
    · intro other queued hq call hop
      rw [hsame] at hq
      rw [hp.log]
      exact hs.queued_log other queued hq call hop
    · intro entry he hr
      rw [hp.log] at he
      rw [hresults] at hr
      rw [hadmitted]
      exact hs.log_admitted entry he hr
    · intro entry he hr queued hq
      rw [hp.log] at he
      rw [hresults] at hr
      rw [hsame] at hq
      exact hs.fifo entry he hr queued hq
  · have hsorted := hs.jobs_sorted k
    rw [hjobs,List.pairwise_cons] at hsorted
    have hsub : ∀ other queued, queued ∈ jobs s' other → queued ∈ jobs s other := hp.queued hjobs
    have hne : ∀ other queued, queued ∈ jobs s' other → queued.id ≠ job.id := by
      intro other queued hq he
      have ho := hs.jobs_disjoint other k queued (hsub other queued hq) job hfront he
      subst ho
      rw [hk] at hq
      exact Nat.ne_of_gt (hsorted.1 queued hq) he
    constructor
    · intro other queued hq
      exact (hs.jobs_fresh other queued (hsub other queued hq)).trans_le hp.fresh
    · intro other
      by_cases ho : other = k
      · rw [ho,hk]
        exact hsorted.2
      · rw [hp.others other ho]
        exact hs.jobs_sorted other
    · intro first second queued hq queued' hq' he
      exact hs.jobs_disjoint first second queued (hsub _ _ hq) queued' (hsub _ _ hq') he
    · intro other queued hq
      rw [hresults,update_of_ne (hne other queued hq)]
      exact hs.jobs_unsettled other queued (hsub other queued hq)
    · intro id hr
      by_cases hid : id = job.id
      · exact hid ▸ (hs.jobs_fresh k job hfront).trans_le hp.fresh
      · rw [hresults,update_of_ne hid] at hr
        exact (hs.results_fresh id hr).trans_le hp.fresh
    · intro entry he
      rw [hp.log] at he
      exact (hs.log_fresh entry he).trans_le hp.fresh
    · rw [hp.log]
      exact hs.log_sorted
    · intro entry he hr
      rw [hp.log] at he
      by_cases hid : entry.id = job.id
      · rw [hresults,hid,update_self] at hr
        cases hr
      · rw [hresults,update_of_ne hid] at hr
        have hq := hs.log_queued entry he hr
        by_cases ho : entry.key = k
        · rw [ho,hk]
          rw [ho,hjobs,List.mem_cons] at hq
          rcases hq with hq | hq
          · exact absurd (congrArg Job.id hq) hid
          · exact hq
        · rw [hp.others _ ho]
          exact hq
    · intro other queued hq call hop
      rw [hp.log]
      exact hs.queued_log other queued (hsub other queued hq) call hop
    · intro entry he hr
      rw [hp.log] at he
      by_cases hid : entry.id = job.id
      · rw [hresults,hid,update_self] at hr
        cases hr
      · rw [hresults,update_of_ne hid] at hr
        rw [hadmitted]
        exact List.mem_filter.mpr ⟨hs.log_admitted entry he hr,decide_eq_true hid⟩
    · intro entry he hr queued hq
      rw [hp.log] at he
      by_cases hid : entry.id = job.id
      · have hnone := hid ▸ hs.jobs_unsettled k job hfront
        have hown := hs.log_queued entry he hnone
        have ho := hs.jobs_disjoint entry.key k _ hown job hfront hid
        rw [ho,hk] at hq
        rw [hid]
        exact hsorted.1 queued hq
      · rw [hresults,update_of_ne hid] at hr
        exact hs.fifo entry he hr queued (hsub _ _ hq)

/-- An admission that settles is the front of its own key's chain. -/
theorem Progress.settled_front {s s' : State} {k : StoreKey} {job : Job} {rest : List Job}
    (hp : Progress s s' k job rest) (hs : OrderOk s) (hjobs : jobs s k = job::rest)
    {entry : Admission} (he : entry ∈ s.log) (hbefore : s.results entry.id = none)
    (hafter : s'.results entry.id ≠ none) : entry.key = k ∧ job = ⟨entry.id,.call entry.call⟩ := by
  have hid : entry.id = job.id := by
    by_contra hne
    exact hafter ((hp.results_of_ne hne).trans hbefore)
  have hfront : job ∈ jobs s k := by simp [hjobs]
  have hqueued := hs.log_queued entry he hbefore
  have hkey := hs.jobs_disjoint entry.key k _ hqueued job hfront hid
  have hsorted := hs.jobs_sorted k
  rw [hjobs,List.pairwise_cons] at hsorted
  rw [hkey,hjobs,List.mem_cons] at hqueued
  rcases hqueued with hq | hq
  · exact ⟨hkey,hq.symm⟩
  · exact absurd hid.symm (Nat.ne_of_lt (hsorted.1 _ hq))

/-- Every step keeps the admission order. -/
theorem step_orderOk {s s' : State} {a : Action} (hs : OrderOk s) (h : step s a = some s') : OrderOk s' := by
  cases a with
  | invoke calls =>
    cases h
    exact withKeyLocks_orderOk hs calls
  | start k =>
    obtain ⟨job,rest,hjobs,hp⟩ := step_start_progress h
    exact hp.orderOk hs hjobs
  | io k outcome =>
    obtain ⟨job,rest,hjobs,hp⟩ := step_io_progress h
    exact hp.orderOk hs hjobs
  | fire timer =>
    obtain ⟨_,_,rfl⟩ := step_fire h
    have hcleared : OrderOk (clearTimeout s (some timer)) := hs.congr le_rfl rfl rfl rfl rfl
    exact enqueue_flushOne_orderOk hcleared _ _
  | flush =>
    cases h
    exact flushAll_orderOk hs _
  | drain id =>
    cases h
    exact flushAll_orderOk hs _
  | resume f =>
    obtain ⟨call,_,hr⟩ := step_resume h
    exact resumeFlush_orderOk hs hr

theorem opened_orderOk (disk : StoreKey → Option Bytes) : OrderOk (opened disk) where
  jobs_fresh k job hj := by cases hj
  jobs_sorted k := List.Pairwise.nil
  jobs_disjoint k other job hj := by cases hj
  jobs_unsettled k job hj := by cases hj
  results_fresh id hr := absurd rfl hr
  log_fresh entry he := by cases he
  log_sorted := List.Pairwise.nil
  log_queued entry he := by cases he
  queued_log k job hj := by cases hj
  log_admitted entry he := by cases he
  fifo entry he := by cases he

theorem reachable_orderOk {s : State} (hs : ReachableState s) : OrderOk s :=
  hs.invariant (fun s hi => by
    obtain ⟨disk,rfl⟩ := hi
    exact opened_orderOk disk) fun _ _ _ ho hn => step_orderOk ho hn

end Baileyrs.BridgeStore
