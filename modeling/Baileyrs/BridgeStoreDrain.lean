import Baileyrs.BridgeStoreQuiesce

/-!
# Drains that share a failure set

Several flushes of one drain share their failure set. An entry fails in it only as a
flush of the drain that rejects, so when all flushes of a drain have resolved its set
is empty and the last one leaves nothing pending. A store without admitted operations
and pending writes stays so until a caller admits an operation.
-/

namespace Baileyrs.BridgeStore

open LabelledRuns Function

/-- A flush recorded a failure, or waits for a flush of a key that rejected. -/
def Knows (s : State) (call : FlushCall) : Prop :=
  call.errors ≠ [] ∨ ∃ ops, call.stage = .draining ops ∧ ∃ id ∈ ops, s.results id = some .rejected

/-- Flushes, their queued flushes of keys and the failure sets agree. -/
structure DrainOk (s : State) : Prop where
  /-- A queued flush of a key belongs to a flush that waits for it. -/
  drained : ∀ k, ∀ job ∈ jobs s k, ∀ scope, job.op = .flushOne (some scope) →
    ∃ f call ops, s.flushes f = some call ∧ call.scope = scope ∧ call.stage = .draining ops ∧
      job.id ∈ ops
  /-- A failed entry is known to a flush with its set. -/
  failed : ∀ scope, (s.scopes scope).failedEntries ≠ [] →
    ∃ f call, s.flushes f = some call ∧ call.scope = scope ∧ Knows s call
  /-- A flush resolves without failures. -/
  resolved : ∀ f call, s.flushes f = some call → call.stage = .resolved → call.errors = []

/-- A set whose flushes have all resolved has no failed entry. -/
theorem DrainOk.clean {s : State} (h : DrainOk s) {scope : ScopeId}
    (hall : ∀ f call, s.flushes f = some call → call.scope = scope → call.stage = .resolved) :
    (s.scopes scope).failedEntries = [] := by
  by_contra hfailed
  rcases h.failed scope hfailed with ⟨f,call,hf,hscope,hknows⟩
  have hstage := hall f call hf hscope
  rcases hknows with herrors | ⟨ops,hdraining,_⟩
  · exact herrors (h.resolved f call hf hstage)
  · rw [hstage] at hdraining
    cases hdraining

/-- Running the front of a chain keeps the agreement. -/
theorem DrainOk.progress {s s' : State} {k : StoreKey} {job : Job} {rest : List Job}
    (h : DrainOk s) (ho : OrderOk s) (hjobs : jobs s k = job::rest) (hp : Progress s s' k job rest)
    (hscopes : ∀ scope, (s'.scopes scope).failedEntries = (s.scopes scope).failedEntries ∨
      job.op = .flushOne (some scope) ∧ s'.results job.id = some .rejected) : DrainOk s' := by
  have hfront : job ∈ jobs s k := by simp [hjobs]
  have hsub : ∀ other queued, queued ∈ jobs s' other → queued ∈ jobs s other := hp.queued hjobs
  have hrejected : ∀ id, s.results id = some .rejected → s'.results id = some .rejected := by
    intro id hr
    have hsettled : s.results id ≠ none := by
      rw [hr]
      exact Option.some_ne_none _
    exact (hp.settled ho hjobs hsettled).trans hr
  refine ⟨?_,?_,?_⟩
  · intro other queued hq scope hop
    rw [hp.flushes]
    exact h.drained other queued (hsub other queued hq) scope hop
  · intro scope hfailed
    rw [hp.flushes]
    rcases hscopes scope with hsame | ⟨hop,hr⟩
    · rw [hsame] at hfailed
      rcases h.failed scope hfailed with ⟨f,call,hf,hscope,hknows⟩
      refine ⟨f,call,hf,hscope,?_⟩
      rcases hknows with herrors | ⟨ops,hstage,id,hid,hr⟩
      · exact .inl herrors
      · exact .inr ⟨ops,hstage,id,hid,hrejected id hr⟩
    · rcases h.drained k job hfront scope hop with ⟨f,call,ops,hf,hscope,hstage,hid⟩
      exact ⟨f,call,hf,hscope,.inr ⟨ops,hstage,job.id,hid,hr⟩⟩
  · intro f call hf
    rw [hp.flushes] at hf
    exact h.resolved f call hf

/-- Queuing operations outside any set keeps the agreement. -/
theorem DrainOk.extend {s s' : State} (h : DrainOk s) (hflushes : s'.flushes = s.flushes)
    (hscopes : s'.scopes = s.scopes) (hresults : s'.results = s.results)
    (hjobs : ∀ k, ∀ job ∈ jobs s' k, job ∈ jobs s k ∨ ∀ scope, job.op ≠ .flushOne (some scope)) : DrainOk s' := by
  refine ⟨?_,?_,?_⟩
  · intro k job hj scope hop
    rw [hflushes]
    rcases hjobs k job hj with hold | hnot
    · exact h.drained k job hold scope hop
    · exact absurd hop (hnot scope)
  · intro scope hfailed
    rw [hscopes] at hfailed
    rcases h.failed scope hfailed with ⟨f,call,hf,hscope,hknows⟩
    unfold Knows at hknows ⊢
    rw [hflushes,hresults]
    exact ⟨f,call,hf,hscope,hknows⟩
  · intro f call hf
    rw [hflushes] at hf
    exact h.resolved f call hf

theorem withKeyLocks_drainOk {s : State} (h : DrainOk s) (calls : List (StoreKey × KeyCall)) :
    DrainOk (withKeyLocks s calls) := by
  induction calls generalizing s with
  | nil => exact h
  | cons pair rest ih =>
    refine ih ?_
    refine h.extend rfl rfl rfl ?_
    intro other job hj
    rcases mem_jobs_enqueue hj with hold | rfl
    · exact .inl hold
    · exact .inr fun scope hop => nomatch hop

/-- A stretch of a flush loop keeps the agreement: everything it waited for has settled,
and it recorded the failures. -/
theorem LoopStep.drainOk {s s' : State} {f : ℕ} {call call' : FlushCall}
    (hl : LoopStep s f call s' call') (h : DrainOk s) (ho : OrderOk s)
    (hwaited : ∀ old ops, s.flushes f = some old → old.stage = .draining ops →
      ∀ id ∈ ops, s.results id ≠ none) (hknown : ∀ old, s.flushes f = some old → old.scope = call.scope ∧
      (Knows s old → call.errors ≠ [])) : DrainOk s' := by
  have hrecord : ∀ g, g ≠ f → s'.flushes g = s.flushes g := by
    intro g hg
    rw [hl.flushes,update_of_ne hg]
  have hown : s'.flushes f = some call' := by rw [hl.flushes,update_self]
  refine ⟨?_,?_,?_⟩
  · intro k job hj scope hop
    rcases hl.queued k job hj with hold | ⟨_,hnew,ops,hstage,hid⟩
    · rcases h.drained k job hold scope hop with ⟨g,record,ops,hg,hscope,hstage,hid⟩
      have hgf : g ≠ f := by
        rintro rfl
        exact hwaited record ops hg hstage job.id hid (ho.jobs_unsettled k job hold)
      refine ⟨g,record,ops,?_,hscope,hstage,hid⟩
      rw [hrecord g hgf]
      exact hg
    · rw [hnew] at hop
      have hscope : call.scope = scope := by
        cases hop
        rfl
      exact ⟨f,call',ops,hown,hl.scope.trans hscope,hstage,hid⟩
  · intro scope hfailed
    rw [hl.failedEntries] at hfailed
    rcases h.failed scope hfailed with ⟨g,record,hg,hscope,hknows⟩
    by_cases hgf : g = f
    · subst hgf
      rcases hknown record hg with ⟨hsame,herrors⟩
      refine ⟨g,call',hown,hl.scope.trans (hsame.symm.trans hscope),.inl ?_⟩
      rw [hl.errors]
      exact herrors hknows
    · refine ⟨g,record,?_,hscope,?_⟩
      · rw [hrecord g hgf]
        exact hg
      · unfold Knows at hknows ⊢
        rw [hl.results]
        exact hknows
  · intro g record hg hstage
    by_cases hgf : g = f
    · subst hgf
      rw [hown] at hg
      cases hg
      rw [hl.errors]
      exact (hl.resolved hstage).1
    · rw [hrecord g hgf] at hg
      exact h.resolved g record hg hstage

/-- Every step keeps the agreement. -/
theorem step_drainOk {s s' : State} {a : Action} (ho : OrderOk s) (hf : FlushOk s)
    (h : DrainOk s) (hs : step s a = some s') : DrainOk s' := by
  have hstarted : DrainOk {s with fresh := s.fresh+1} :=
    h.extend rfl rfl rfl fun _ _ hj => .inl hj
  have hordered : OrderOk {s with fresh := s.fresh+1} :=
    ho.congr (Nat.le_succ _) rfl rfl rfl rfl
  have hnew : ∀ old, s.flushes s.fresh = some old → False := by
    intro old hold
    exact Nat.lt_irrefl _ (hf.flushes_fresh s.fresh old hold)
  cases a with
  | invoke calls =>
    cases hs
    exact withKeyLocks_drainOk h calls
  | start k =>
    rcases step_start_progress hs with ⟨front,tail,hjobs,hp⟩
    rcases step_start hs with ⟨job,rest,hc,rfl⟩
    have hfront : front = job := by
      unfold jobs at hjobs
      rw [hc] at hjobs
      exact (List.cons.inj hjobs).1.symm
    subst hfront
    exact h.progress ho hjobs hp (startJob_jobStep _ k front).failedEntries
  | io k outcome =>
    rcases step_io_progress hs with ⟨front,tail,hjobs,hp⟩
    rcases step_io hs with ⟨job,awaiting,hr,hio⟩
    have hfront : front = job := by
      unfold jobs at hjobs
      rw [hr] at hjobs
      exact (List.cons.inj hjobs).1.symm
    subst hfront
    exact h.progress ho hjobs hp (ioJob_jobStep hio).failedEntries
  | fire timer =>
    rcases step_fire hs with ⟨_,_,rfl⟩
    have hcleared : DrainOk (clearTimeout s (some timer)) :=
      h.extend rfl rfl rfl fun _ _ hj => .inl hj
    refine hcleared.extend rfl rfl rfl ?_
    intro other job hj
    rcases mem_jobs_enqueue hj with hold | rfl
    · exact .inl hold
    · exact .inr fun scope hop => nomatch hop
  | flush =>
    cases hs
    rcases flushAll_loopStep s (.own s.fresh) with ⟨call',hl⟩
    refine hl.drainOk hstarted hordered ?_ ?_
    · intro old ops hold
      exact (hnew old hold).elim
    · intro old hold
      exact (hnew old hold).elim
  | drain id =>
    cases hs
    rcases flushAll_loopStep s (.drain id) with ⟨call',hl⟩
    refine hl.drainOk hstarted hordered ?_ ?_
    · intro old ops hold
      exact (hnew old hold).elim
    · intro old hold
      exact (hnew old hold).elim
  | resume f =>
    rcases step_resume hs with ⟨call,hcall,hr⟩
    rcases resumeFlush_loopStep hr with ⟨waited,pass,call',hstage,hsettled,hl⟩
    refine hl.drainOk h ho ?_ ?_
    · intro old ops hold hdraining id hid
      rw [hcall] at hold
      cases hold
      rcases hstage with hbarrier | hwaits
      · rw [hdraining] at hbarrier
        cases hbarrier
      · rw [hdraining] at hwaits
        cases hwaits
        exact hsettled id hid
    · intro old hold
      rw [hcall] at hold
      cases hold
      refine ⟨rfl,?_⟩
      rintro (herrors | ⟨ops,hdraining,id,hid,hrejected⟩)
      · exact List.append_ne_nil_of_left_ne_nil herrors _
      · have hmem : id ∈ rejections s waited := by
          rcases hstage with hbarrier | hwaits
          · rw [hdraining] at hbarrier
            cases hbarrier
          · rw [hdraining] at hwaits
            cases hwaits
            exact List.mem_filter.mpr ⟨hid,decide_eq_true hrejected⟩
        exact List.append_ne_nil_of_right_ne_nil _ (List.ne_nil_of_mem hmem)

/-- Nothing has failed before the store is used. -/
theorem opened_drainOk (disk : StoreKey → Option Bytes) : DrainOk (opened disk) := by
  refine ⟨?_,?_,nofun⟩
  · intro k job hj
    cases hj
  · intro scope hfailed
    exact absurd rfl hfailed

theorem reachable_drainOk {s : State} (hs : ReachableState s) : DrainOk s := by
  have hall : DrainOk s ∧ ReachableState s := by
    rcases hs with ⟨start,labels,⟨disk,rfl⟩,hr⟩
    refine run_invariant (P := fun s => DrainOk s ∧ ReachableState s) ?_ hr
      ⟨opened_drainOk disk,Reachable.start ⟨disk,rfl⟩⟩
    rintro s a next ⟨h,hs⟩ hn
    exact ⟨step_drainOk (reachable_orderOk hs) (reachable_flushOk hs) h hn,hs.next hn⟩
  exact hall.1

/-- Nothing is admitted and nothing is pending. -/
structure Quiet (s : State) : Prop where
  /-- No operation is tracked. -/
  admitted : s.admitted = []
  /-- No write is pending. -/
  pending : ∀ k, s.pendingWrites.get k = none

/-- Only flushes of keys are queued in a quiet store. -/
theorem Quiet.flushOnly {s : State} (h : Quiet s) (ho : OrderOk s) {k : StoreKey} {job : Job}
    (hj : job ∈ jobs s k) : ∃ scope, job.op = .flushOne scope := by
  cases hop : job.op with
  | flushOne scope => exact ⟨scope,rfl⟩
  | call call =>
    have hlog := ho.queued_log k job hj call hop
    have hmem := ho.log_admitted _ hlog (ho.jobs_unsettled k job hj)
    rw [h.admitted] at hmem
    cases hmem

/-- A quiet store stays quiet until an operation is admitted. -/
theorem Quiet.step {s s' : State} {a : Action} (h : Quiet s) (ho : OrderOk s)
    (hk : ∀ k, KeyOk s k) (hs : BridgeStore.step s a = some s')
    (hinvoke : ∀ calls, a ≠ .invoke calls) : Quiet s' ∧ s'.log = s.log := by
  cases a with
  | invoke calls => exact absurd rfl (hinvoke calls)
  | start k =>
    rcases step_start_progress hs with ⟨front,tail,hjobs,hp⟩
    rcases step_start hs with ⟨job,rest,hc,rfl⟩
    have hmem : job ∈ jobs s k := by
      unfold BridgeStore.jobs
      rw [hc]
      exact List.mem_append_right _ List.mem_cons_self
    rcases h.flushOnly ho hmem with ⟨scope,hop⟩
    refine ⟨⟨?_,?_⟩,hp.log⟩
    · simp [startJob,hop,flushOne,h.pending k,settle,h.admitted]
    · intro other
      simp only [startJob,hop,flushOne,h.pending k,settle]
      exact h.pending other
  | io k outcome =>
    rcases step_io hs with ⟨job,awaiting,hr,hio⟩
    have hmem : job ∈ jobs s k := by
      simp [BridgeStore.jobs,hr]
    rcases h.flushOnly ho hmem with ⟨scope,hop⟩
    have hsuspended := hk k
    unfold KeyOk at hsuspended
    rw [hr] at hsuspended
    have hwrite : ∀ write, ¬WriteOk s k job write := by
      intro write hw
      unfold WriteOk at hw
      split at hw
      · rw [hop] at hw
        cases hw.1
      · have hpending := hw.2.2.2.1
        rw [h.pending k] at hpending
        cases hpending
    have hnever : False := by
      cases awaiting with
      | writeTmp write attempt => exact hwrite write hsuspended.2
      | publishTmp write => exact hwrite write hsuspended.2
      | syncDir write => exact hwrite write hsuspended.1
      | unlinkTmp write => exact hwrite write hsuspended.1
      | readFile keyUncertain =>
        have hget := hsuspended.2.1
        rw [hop] at hget
        cases hget
      | unlink prev =>
        have hdelete := hsuspended.2.op
        rw [hop] at hdelete
        cases hdelete
      | syncAbsent prev =>
        have hdelete := hsuspended.2.1.op
        rw [hop] at hdelete
        cases hdelete
      | syncUnlinked =>
        have hdelete := hsuspended.1
        rw [hop] at hdelete
        cases hdelete
    exact hnever.elim
  | fire timer =>
    rcases step_fire hs with ⟨_,_,rfl⟩
    exact ⟨⟨h.admitted,h.pending⟩,rfl⟩
  | flush =>
    cases hs
    have hframe := flushAll_frame s (.own s.fresh)
    refine ⟨⟨hframe.admitted.trans h.admitted,?_⟩,hframe.log⟩
    intro k
    rw [hframe.pendingWrites]
    exact h.pending k
  | drain id =>
    cases hs
    have hframe := flushAll_frame s (.drain id)
    refine ⟨⟨hframe.admitted.trans h.admitted,?_⟩,hframe.log⟩
    intro k
    rw [hframe.pendingWrites]
    exact h.pending k
  | resume f =>
    rcases step_resume hs with ⟨call,_,hr⟩
    have hframe := resumeFlush_frame hr
    refine ⟨⟨hframe.admitted.trans h.admitted,?_⟩,hframe.log⟩
    intro k
    rw [hframe.pendingWrites]
    exact h.pending k

/-- A drain whose flushes have all resolved leaves the store quiet. -/
theorem Quiescent.quiet {s : State} {scope : ScopeId} {f : ℕ} (h : Quiescent s scope f) (hd : DrainOk s)
    (hall : ∀ g call, s.flushes g = some call → call.scope = scope → call.stage = .resolved) : Quiet s := by
  refine ⟨h.admitted,?_⟩
  intro k
  cases hp : s.pendingWrites.get k with
  | none => rfl
  | some entry =>
    have hfailed := h.pending k entry hp
    rw [hd.clean hall] at hfailed
    cases hfailed

/-- In a quiet store every set that did not reject and has no later mutation of its key is
persisted. -/
theorem Quiet.persisted {disk₀ : StoreKey → Option Bytes} {s : State} (h : Quiet s)
    (hs : ReachableState s) (huntouched : Untouched disk₀ s) {entry : Admission}
    (he : entry ∈ s.log) {value : Bytes} (hcall : entry.call = .set value)
    (hres : s.results entry.id ≠ some .rejected) (hlast : LastMutation s entry) :
    Persisted disk₀ s entry.key value := by
  have ho := reachable_orderOk hs
  have hsettled : ∃ answer, s.results entry.id = some (.resolved answer) := by
    cases hout : s.results entry.id with
    | none =>
      have hmem := ho.log_admitted entry he hout
      rw [h.admitted] at hmem
      cases hmem
    | some outcome =>
      cases outcome with
      | resolved answer => exact ⟨answer,rfl⟩
      | rejected => exact absurd hout hres
  rcases hsettled with ⟨answer,hsettled⟩
  have hheld := reachable_setsHeld hs entry he value answer hcall hsettled hlast
  unfold Held at hheld
  rw [h.pending entry.key] at hheld
  refine ⟨hheld.1,h.pending entry.key,?_⟩
  cases hb : s.barrier entry.key with
  | asOpened =>
    rw [← huntouched entry.key hb]
    exact .inr ⟨rfl,hheld.1⟩
  | incomplete => exact absurd hb hheld.2
  | complete => exact .inl rfl

/-- A record of a flush is old, or was resumed before it resolved, or is a new flush. -/
theorem step_record {s s' : State} {a : Action} (hs : BridgeStore.step s a = some s') {d : ℕ}
    {record : FlushCall} (hd : s'.flushes d = some record) : s.flushes d = some record ∨
    (∃ call, s.flushes d = some call ∧ call.scope = record.scope ∧ call.stage ≠ .resolved) ∨
    d = s.fresh ∧ (a = .flush ∧ record.scope = .own s.fresh ∨ ∃ id, a = .drain id ∧ record.scope = .drain id) := by
  have hnew : ∀ scope, (flushAll s scope).flushes d = some record →
      s.flushes d = some record ∨ d = s.fresh ∧ record.scope = scope := by
    intro scope hd
    rcases flushAll_loopStep s scope with ⟨call',hl⟩
    rw [hl.flushes] at hd
    by_cases hfresh : d = s.fresh
    · subst hfresh
      rw [update_self] at hd
      cases hd
      exact .inr ⟨rfl,hl.scope⟩
    · rw [update_of_ne hfresh] at hd
      exact .inl hd
  cases a with
  | invoke calls =>
    cases hs
    rw [withKeyLocks_flushes] at hd
    exact .inl hd
  | start k =>
    rcases step_start_progress hs with ⟨_,_,_,hp⟩
    rw [hp.flushes] at hd
    exact .inl hd
  | io k outcome =>
    rcases step_io_progress hs with ⟨_,_,_,hp⟩
    rw [hp.flushes] at hd
    exact .inl hd
  | fire timer =>
    rcases step_fire hs with ⟨_,_,rfl⟩
    exact .inl hd
  | flush =>
    cases hs
    rcases hnew _ hd with hold | ⟨hfresh,hscope⟩
    · exact .inl hold
    · exact .inr (.inr ⟨hfresh,.inl ⟨rfl,hscope⟩⟩)
  | drain id =>
    cases hs
    rcases hnew _ hd with hold | ⟨hfresh,hscope⟩
    · exact .inl hold
    · exact .inr (.inr ⟨hfresh,.inr ⟨id,rfl,hscope⟩⟩)
  | resume f =>
    rcases step_resume hs with ⟨call,hcall,hr⟩
    rcases resumeFlush_loopStep hr with ⟨waited,pass,call',hstage,hsettled,hl⟩
    rw [hl.flushes] at hd
    by_cases hf : d = f
    · subst hf
      rw [update_self] at hd
      cases hd
      refine .inr (.inl ⟨call,hcall,hl.scope.symm,?_⟩)
      intro hresolved
      rcases hstage with hstage | hstage
      · rw [hresolved] at hstage
        cases hstage
      · rw [hresolved] at hstage
        cases hstage
    · rw [update_of_ne hf] at hd
      exact .inl hd

/-- A record of a flush stays, with its set. -/
theorem step_keeps {s s' : State} {a : Action} (hf : FlushOk s)
    (hs : BridgeStore.step s a = some s') {d : ℕ} {call : FlushCall} (hd : s.flushes d = some call) :
    ∃ record, s'.flushes d = some record ∧ record.scope = call.scope ∧ (call.stage = .resolved → record = call) := by
  have hless := hf.flushes_fresh d call hd
  have hne : d ≠ s.fresh := by omega
  have hold : ∀ scope, (flushAll s scope).flushes d = some call := by
    intro scope
    rcases flushAll_loopStep s scope with ⟨call',hl⟩
    rw [hl.flushes,update_of_ne hne]
    exact hd
  cases a with
  | invoke calls =>
    cases hs
    refine ⟨call,?_,rfl,fun _ => rfl⟩
    rw [withKeyLocks_flushes]
    exact hd
  | start k =>
    rcases step_start_progress hs with ⟨_,_,_,hp⟩
    refine ⟨call,?_,rfl,fun _ => rfl⟩
    rw [hp.flushes]
    exact hd
  | io k outcome =>
    rcases step_io_progress hs with ⟨_,_,_,hp⟩
    refine ⟨call,?_,rfl,fun _ => rfl⟩
    rw [hp.flushes]
    exact hd
  | fire timer =>
    rcases step_fire hs with ⟨_,_,rfl⟩
    exact ⟨call,hd,rfl,fun _ => rfl⟩
  | flush =>
    cases hs
    exact ⟨call,hold _,rfl,fun _ => rfl⟩
  | drain id =>
    cases hs
    exact ⟨call,hold _,rfl,fun _ => rfl⟩
  | resume f =>
    rcases step_resume hs with ⟨old,hcall,hr⟩
    rcases resumeFlush_loopStep hr with ⟨waited,pass,call',hstage,hsettled,hl⟩
    by_cases hdf : d = f
    · subst hdf
      rw [hcall] at hd
      cases hd
      refine ⟨call',?_,hl.scope,?_⟩
      · rw [hl.flushes,update_self]
      · intro hresolved
        rcases hstage with hstage | hstage
        · rw [hresolved] at hstage
          cases hstage
        · rw [hresolved] at hstage
          cases hstage
    · refine ⟨call,?_,rfl,fun _ => rfl⟩
      rw [hl.flushes,update_of_ne hdf]
      exact hd

end Baileyrs.BridgeStore
