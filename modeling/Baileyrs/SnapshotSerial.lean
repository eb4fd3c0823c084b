import Baileyrs.SnapshotTransactions
import Mathlib.Data.List.Nodup

/-!
# Snapshot transactions run in lock order

Every hand-over of rows to a callback and every commit carries the number of
the lock acquisition it happened under. While an acquisition is held, nobody
else reads or writes the snapshot, so the rows handed over are those left by
the commits of smaller numbers, and the snapshot file always holds the rows
of the last commit.
-/

namespace Baileyrs.SnapshotTransactions

open LabelledRuns SnapshotRows Function

variable {A P B : Type*} {process : A → P} {namespaces : List JsString}
  {first : Option (SnapshotText B)} {s s' : State A P B} {a b : A} {job other : Job B}
  {rest : List (Job B)} {rows before : AtomicRows B}

/-- Content of the snapshot file after the commits. -/
def fileAfter (first : Option (SnapshotText B)) (log : List (Commit B)) : Option (SnapshotText B) :=
  match log.getLast? with
  | some commit => some (encodeRows commit.after)
  | none => first

/-- A call settled with the rows its callback left, committed when it was to
be persisted. -/
def SettledOk (s : State A P B) (id : ℕ) (rows : AtomicRows B) : Prop :=
  ∃ handover ∈ s.handed, handover.call = id ∧
    match s.calls id with
    | some (.read _) => rows = handover.rows
    | some (.transaction change shouldPersist) => change handover.rows = some rows ∧
        (shouldPersist = some true →
          ∃ commit ∈ s.log, commit.call = id ∧ commit.before = handover.rows ∧ commit.after = rows)
    | none => False

/-- No callback of a call was called yet. -/
def Unserved (s : State A P B) (id : ℕ) : Prop := ∀ handover ∈ s.handed, handover.call ≠ id

/-- Nothing was committed under the current acquisition. -/
def Uncommitted (s : State A P B) : Prop := ∀ commit ∈ s.log, commit.turn < s.turn

/-- What publishing has achieved at each of its steps. -/
def PublicationOk (s : State A P B) (id : ℕ) (before rows : AtomicRows B) : Publication → Prop
  | .clearing => Uncommitted s
  | .clearSyncing => Uncommitted s
  | .opening => Uncommitted s
  | .writing _ => Uncommitted s
  | .syncing tmp => Uncommitted s ∧ s.disk.tmp tmp = some (encodeRows rows)
  | .closing tmp => Uncommitted s ∧ s.disk.tmp tmp = some (encodeRows rows)
  | .replacing tmp => Uncommitted s ∧ s.disk.tmp tmp = some (encodeRows rows)
  | .dirSyncing _ => ∃ commit ∈ s.log, commit.call = id ∧ commit.before = before ∧
      commit.after = rows
  | .unlinking _ failed => failed = false → ∃ commit ∈ s.log, commit.call = id ∧
      commit.before = before ∧ commit.after = rows

/-- What a call has achieved at each of its stages. -/
def StageOk (s : State A P B) (a : A) (id : ℕ) (call : Call B) : Stage B → Prop
  | .queued => Unserved s id
  | .opening => Unserved s id
  | .locking => Unserved s id
  | .reading => s.owner = some (a,id) ∧ Unserved s id ∧ Uncommitted s ∧
      ∀ handover ∈ s.handed, handover.turn < s.turn
  | .importing => s.owner = some (a,id) ∧ Unserved s id ∧ Uncommitted s ∧ s.disk.file = none ∧
      ∀ handover ∈ s.handed, handover.turn < s.turn
  | .calling rows => s.owner = some (a,id) ∧ Uncommitted s ∧ ⟨s.turn,id,rows⟩ ∈ s.handed
  | .persisting before rows io => s.owner = some (a,id) ∧ ⟨s.turn,id,before⟩ ∈ s.handed ∧
      (∃ change, call = .transaction change (some true) ∧ change before = some rows) ∧
      PublicationOk s id before rows io
  | .closing outcome => ∀ rows, outcome = .resolved rows → SettledOk s id rows

/-- What a call has achieved. -/
def JobOk (s : State A P B) (a : A) (job : Job B) : Prop := StageOk s a job.id job.call job.stage

/-- A commit comes from the hand-over of its acquisition. -/
structure CommitOk (s : State A P B) (commit : Commit B) : Prop where
  /-- Its change was given the rows before it. -/
  handed : ⟨commit.turn,commit.call,commit.before⟩ ∈ s.handed
  /-- The call is a transaction that persists. -/
  call : s.calls commit.call = some (.transaction commit.change (some true))
  /-- Its change produced the published rows. -/
  change : commit.change commit.before = some commit.after

/-- The record of the runs under the lock. -/
structure HistoryOk (namespaces : List JsString) (first : Option (SnapshotText B))
    (s : State A P B) : Prop where
  /-- Commits follow the order of the lock. -/
  sorted : s.log.Pairwise fun commit later => commit.turn < later.turn
  /-- Commits belong to past acquisitions. -/
  logTurn : ∀ commit ∈ s.log, commit.turn ≤ s.turn
  /-- So do hand-overs. -/
  handedTurn : ∀ handover ∈ s.handed, handover.turn ≤ s.turn
  /-- An acquisition serves one callback, and a call has one. -/
  unique : ∀ handover ∈ s.handed, ∀ twin ∈ s.handed,
    handover.turn = twin.turn ∨ handover.call = twin.call → handover = twin
  /-- The snapshot file holds the rows of the last commit. -/
  file : s.disk.file = fileAfter first s.log
  /-- Callbacks get the rows left by the commits before them. -/
  left : ∀ handover ∈ s.handed, LeftBy namespaces first (s.imports handover.call)
    (committedBefore s.log handover.turn) handover.rows
  /-- Commits come from hand-overs. -/
  commits : ∀ commit ∈ s.log, CommitOk s commit
  /-- Resolved calls achieved what they report. -/
  settled : ∀ id rows, s.results id = some (.resolved rows) → SettledOk s id rows

/-- Calls on the chains are distinct and recorded. -/
structure ChainsOk (s : State A P B) : Prop where
  /-- Identities are allocated in order. -/
  fresh : ∀ a, ∀ job ∈ s.jobs a, job.id < s.fresh
  /-- Different adapters run different calls. -/
  distinct : ∀ a b, ∀ job ∈ s.jobs a, ∀ other ∈ s.jobs b, job.id = other.id → a = b
  /-- A chain holds a call once. -/
  nodup : ∀ a, ((s.jobs a).map Job.id).Nodup
  /-- Waiting and running calls are recorded. -/
  calls : ∀ a, ∀ job ∈ s.jobs a, s.calls job.id = some job.call
  /-- Served calls were admitted. -/
  handed : ∀ handover ∈ s.handed, handover.call < s.fresh

/-- The invariant of all reachable states. -/
structure Serial (namespaces : List JsString) (first : Option (SnapshotText B))
    (s : State A P B) : Prop where
  /-- The record of the runs under the lock. -/
  history : HistoryOk namespaces first s
  /-- The chains. -/
  chains : ChainsOk s
  /-- What every call has achieved. -/
  jobs : ∀ a, ∀ job ∈ s.jobs a, JobOk s a job

/-- Facts of settled calls survive as the records grow. -/
theorem SettledOk.mono {id : ℕ} (h : SettledOk s id rows) (hcalls : s'.calls id = s.calls id)
    (hhanded : ∀ handover ∈ s.handed, handover ∈ s'.handed)
    (hlog : ∀ commit ∈ s.log, commit ∈ s'.log) : SettledOk s' id rows := by
  obtain ⟨handover,hm,hcall,hcase⟩ := h
  refine ⟨handover,hhanded handover hm,hcall,?_⟩
  rw [hcalls]
  cases hc : s.calls id with
  | none =>
    rw [hc] at hcase
    exact hcase
  | some call =>
    rw [hc] at hcase
    cases call with
    | read settles => exact hcase
    | transaction change shouldPersist =>
      refine ⟨hcase.1,fun hp => ?_⟩
      obtain ⟨commit,hcm,hfacts⟩ := hcase.2 hp
      exact ⟨commit,hlog commit hcm,hfacts⟩

/-- A call that does not hold the lock is unaffected by what the holder does. -/
theorem JobOk.elsewhere (h : JobOk s b other) (hfree : s.owner ≠ some (b,other.id))
    (hcalls : s'.calls other.id = s.calls other.id)
    (hhanded : ∀ handover ∈ s.handed, handover ∈ s'.handed)
    (hlog : ∀ commit ∈ s.log, commit ∈ s'.log)
    (hnew : ∀ handover ∈ s'.handed, handover ∈ s.handed ∨ handover.call ≠ other.id) :
    JobOk s' b other := by
  have hunserved : Unserved s other.id → Unserved s' other.id := fun hu handover hm =>
    (hnew handover hm).elim (hu handover) id
  unfold JobOk at h ⊢
  cases hstage : other.stage with
  | queued =>
    rw [hstage] at h
    exact hunserved h
  | opening =>
    rw [hstage] at h
    exact hunserved h
  | locking =>
    rw [hstage] at h
    exact hunserved h
  | reading =>
    rw [hstage] at h
    exact absurd h.1 hfree
  | importing =>
    rw [hstage] at h
    exact absurd h.1 hfree
  | calling rows =>
    rw [hstage] at h
    exact absurd h.1 hfree
  | persisting before rows io =>
    rw [hstage] at h
    exact absurd h.1 hfree
  | closing outcome =>
    rw [hstage] at h
    exact fun rows hrows => (h rows hrows).mono hcalls hhanded hlog

/-- Records that only grow keep the history, up to what a step adds. -/
theorem HistoryOk.congr (h : HistoryOk namespaces first s) (hturn : s.turn ≤ s'.turn)
    (hcalls : ∀ id, s.calls id ≠ none → s'.calls id = s.calls id)
    (himports : s'.imports = s.imports) (hlog : s'.log = s.log) (hhanded : s'.handed = s.handed)
    (hfile : s'.disk.file = s.disk.file)
    (hresults : ∀ id rows, s'.results id = some (.resolved rows) →
      s.results id = some (.resolved rows) ∨ SettledOk s id rows) :
    HistoryOk namespaces first s' where
  sorted := hlog ▸ h.sorted
  logTurn := fun commit hm => Nat.le_trans (h.logTurn commit (hlog ▸ hm)) hturn
  handedTurn := fun handover hm => Nat.le_trans (h.handedTurn handover (hhanded ▸ hm)) hturn
  unique := hhanded ▸ h.unique
  file := by rw [hfile,hlog]; exact h.file
  left := by rw [hhanded,hlog,himports]; exact h.left
  commits := fun commit hm => by
    have hc := h.commits commit (hlog ▸ hm)
    have hcall : s'.calls commit.call = s.calls commit.call :=
      hcalls _ (by rw [hc.call]; exact Option.some_ne_none _)
    exact ⟨hhanded ▸ hc.handed,hcall.trans hc.call,hc.change⟩
  settled := fun id rows hr => by
    have hs : SettledOk s id rows := (hresults id rows hr).elim (h.settled id rows) fun hs => hs
    have hne : s.calls id ≠ none := by
      obtain ⟨_,_,_,hcase⟩ := hs
      intro hnone
      rw [hnone] at hcase
      exact hcase
    exact hs.mono (hcalls id hne) (fun _ hm => hhanded ▸ hm) (fun _ hm => hlog ▸ hm)

/-- Any call other than the running one of the adapter differs from it. -/
theorem ChainsOk.ne (h : ChainsOk s) (hj : s.jobs a = job::rest) (hrest : b = a → other ∈ rest) : (a,job.id) ≠ (b,other.id) := by
  intro heq
  obtain ⟨hab,hid⟩ := Prod.mk.inj heq
  have hn := h.nodup a
  rw [hj,List.map_cons,List.nodup_cons] at hn
  exact hn.1 (hid ▸ List.mem_map.mpr ⟨other,hrest hab.symm,rfl⟩)

variable [DecidableEq A]

@[simp] theorem jobs_advance (s : State A P B) (a : A) (job : Job B) (rest : List (Job B))
    (stage : Stage B) :
    (advance s a job rest stage).jobs = update s.jobs a ({job with stage := stage}::rest) := rfl

/-- Calls after the running one moved on. -/
theorem mem_advance {stage : Stage B} (hj : s.jobs a = job::rest) (hm : other ∈ (advance s a job rest stage).jobs b) :
    b = a ∧ other = {job with stage := stage} ∨ other ∈ s.jobs b ∧ (b = a → other ∈ rest) := by
  rw [jobs_advance] at hm
  by_cases hb : b = a
  · subst hb
    rw [update_self] at hm
    rcases List.mem_cons.mp hm with hself | hrest
    · exact .inl ⟨rfl,hself⟩
    · exact .inr ⟨hj ▸ List.mem_cons_of_mem _ hrest,fun _ => hrest⟩
  · rw [update_of_ne hb] at hm
    exact .inr ⟨hm,fun heq => absurd heq hb⟩

/-- Moving the running call keeps the chains. -/
theorem ChainsOk.moved {stage : Stage B} (h : ChainsOk s) (hj : s.jobs a = job::rest) :
    ChainsOk (advance s a job rest stage) := by
  have hid : ∀ b, ∀ other ∈ (advance s a job rest stage).jobs b,
      ∃ old ∈ s.jobs b, old.id = other.id ∧ old.call = other.call := by
    intro b other hm
    rcases mem_advance hj hm with ⟨rfl,rfl⟩ | ⟨hold,_⟩
    · exact ⟨job,hj ▸ List.mem_cons_self,rfl,rfl⟩
    · exact ⟨other,hold,rfl,rfl⟩
  constructor
  · intro b other hm
    obtain ⟨old,hold,hsame,_⟩ := hid b other hm
    exact hsame ▸ h.fresh b old hold
  · intro b c other hm last hl heq
    obtain ⟨old,hold,hsame,_⟩ := hid b other hm
    obtain ⟨older,holder,hsame',_⟩ := hid c last hl
    exact h.distinct b c old hold older holder (by rw [hsame,hsame',heq])
  · intro b
    have hn := h.nodup b
    by_cases hb : b = a
    · subst hb
      rw [hj] at hn
      rw [jobs_advance,update_self]
      exact hn
    · rw [jobs_advance,update_of_ne hb]
      exact hn
  · intro b other hm
    obtain ⟨old,hold,hsame,hcall⟩ := hid b other hm
    have hc := h.calls b old hold
    rw [hsame,hcall] at hc
    exact hc
  · exact h.handed

/-- The running call of an adapter moves on after changing what only the
holder of the lock may change. -/
theorem Serial.holder {s₁ : State A P B} {stage : Stage B} (h : Serial namespaces first s)
    (hj : s.jobs a = job::rest) (howner : s.owner = none ∨ s.owner = some (a,job.id))
    (hjobs : s₁.jobs = s.jobs) (hcalls : s₁.calls = s.calls) (hfresh : s₁.fresh = s.fresh)
    (hhanded : ∀ handover ∈ s.handed, handover ∈ s₁.handed)
    (hnew : ∀ handover ∈ s₁.handed, handover ∈ s.handed ∨ handover.call = job.id)
    (hlog : ∀ commit ∈ s.log, commit ∈ s₁.log) (hhistory : HistoryOk namespaces first s₁)
    (hstage : StageOk s₁ a job.id job.call stage) : Serial namespaces first (advance s₁ a job rest stage) := by
  have hj₁ : s₁.jobs a = job::rest := by rw [hjobs,hj]
  have hmem : job ∈ s.jobs a := hj ▸ List.mem_cons_self
  have hchains : ChainsOk s₁ := by
    constructor
    · rw [hjobs,hfresh]
      exact h.chains.fresh
    · rw [hjobs]
      exact h.chains.distinct
    · rw [hjobs]
      exact h.chains.nodup
    · rw [hjobs,hcalls]
      exact h.chains.calls
    · intro handover hm
      rw [hfresh]
      rcases hnew handover hm with hold | hown
      · exact h.chains.handed handover hold
      · exact hown ▸ h.chains.fresh a job hmem
  constructor
  · exact hhistory.congr (Nat.le_refl _) (fun _ _ => rfl) rfl rfl rfl rfl fun _ _ => .inl
  · exact hchains.moved hj₁
  · intro b other hm
    rcases mem_advance hj₁ hm with ⟨rfl,rfl⟩ | ⟨hold,hrest⟩
    · exact hstage
    · rw [hjobs] at hold
      have hne := h.chains.ne hj hrest
      have hfree : s.owner ≠ some (b,other.id) := by
        rcases howner with hnone | hown
        · rw [hnone]
          exact nofun
        · rw [hown]
          exact fun heq => hne (Option.some.inj heq)
      refine JobOk.elsewhere (h.jobs b other hold) hfree (congrFun hcalls _) hhanded hlog ?_
      intro handover hmem₁
      rcases hnew handover hmem₁ with hin | hown
      · exact .inl hin
      · refine .inr fun heq => hne ?_
        have hid : job.id = other.id := hown.symm.trans heq
        rw [h.chains.distinct a b job hmem other hold hid,hid]

/-- The running call of an adapter moves on. -/
theorem Serial.moved {stage : Stage B} (h : Serial namespaces first s)
    (hj : s.jobs a = job::rest) (hstage : StageOk s a job.id job.call stage) :
    Serial namespaces first (advance s a job rest stage) := by
  constructor
  · exact h.history.congr (Nat.le_refl _) (fun _ _ => rfl) rfl rfl rfl rfl fun _ _ => .inl
  · exact h.chains.moved hj
  · intro b other hm
    rcases mem_advance hj hm with ⟨rfl,rfl⟩ | ⟨hold,_⟩
    · exact hstage
    · exact h.jobs b other hold

omit [DecidableEq A] in
/-- A call is unaffected by steps that leave the records and the folder alone. -/
theorem JobOk.congr (h : JobOk s b other) (howner : s.owner = some (b,other.id) → s'.owner = some (b,other.id))
    (hturn : s'.turn = s.turn) (hlog : s'.log = s.log) (hhanded : s'.handed = s.handed)
    (hdisk : s'.disk = s.disk) (hcalls : s'.calls other.id = s.calls other.id) : JobOk s' b other := by
  have hunserved : Unserved s other.id → Unserved s' other.id := by
    unfold Unserved
    rw [hhanded]
    exact id
  have huncommitted : Uncommitted s → Uncommitted s' := by
    unfold Uncommitted
    rw [hlog,hturn]
    exact id
  unfold JobOk at h ⊢
  cases hstage : other.stage with
  | queued =>
    rw [hstage] at h
    exact hunserved h
  | opening =>
    rw [hstage] at h
    exact hunserved h
  | locking =>
    rw [hstage] at h
    exact hunserved h
  | reading =>
    rw [hstage] at h
    obtain ⟨hown,hu,hc,ht⟩ := h
    exact ⟨howner hown,hunserved hu,huncommitted hc,hhanded ▸ hturn ▸ ht⟩
  | importing =>
    rw [hstage] at h
    obtain ⟨hown,hu,hc,hf,ht⟩ := h
    exact ⟨howner hown,hunserved hu,huncommitted hc,hdisk ▸ hf,hhanded ▸ hturn ▸ ht⟩
  | calling rows =>
    rw [hstage] at h
    obtain ⟨hown,hc,hm⟩ := h
    exact ⟨howner hown,huncommitted hc,hhanded ▸ hturn ▸ hm⟩
  | persisting before rows io =>
    rw [hstage] at h
    obtain ⟨hown,hm,hcall,hio⟩ := h
    refine ⟨howner hown,hhanded ▸ hturn ▸ hm,hcall,?_⟩
    unfold PublicationOk at hio ⊢
    rw [hlog,hdisk]
    unfold Uncommitted at hio ⊢
    rw [hlog,hturn]
    exact hio
  | closing outcome =>
    rw [hstage] at h
    exact fun rows hrows => (h rows hrows).mono hcalls (fun _ hm => hhanded ▸ hm)
      (fun _ hm => hlog ▸ hm)

omit [DecidableEq A] in
/-- Calls that leave the chains, with what they settle as, keep the invariant. -/
theorem Serial.shrink (h : Serial namespaces first s) (hjobs : ∀ b, (s'.jobs b).Sublist (s.jobs b))
    (howner : ∀ b, ∀ other ∈ s'.jobs b, s.owner = some (b,other.id) → s'.owner = some (b,other.id))
    (hfresh : s'.fresh = s.fresh) (hturn : s'.turn = s.turn) (hlog : s'.log = s.log)
    (hhanded : s'.handed = s.handed) (hdisk : s'.disk = s.disk) (hcalls : s'.calls = s.calls)
    (himports : s'.imports = s.imports) (hresults : ∀ id rows, s'.results id = some (.resolved rows) →
      s.results id = some (.resolved rows) ∨ SettledOk s id rows) : Serial namespaces first s' := by
  have hold : ∀ b, ∀ other ∈ s'.jobs b, other ∈ s.jobs b := fun b other hm => (hjobs b).subset hm
  constructor
  · exact h.history.congr (Nat.le_of_eq hturn.symm) (fun id _ => congrFun hcalls id) himports hlog
      hhanded (by rw [hdisk]) hresults
  · constructor
    · exact fun b other hm => hfresh ▸ h.chains.fresh b other (hold b other hm)
    · exact fun b c other hm last hl => h.chains.distinct b c other (hold b other hm) last
        (hold c last hl)
    · exact fun b => (h.chains.nodup b).sublist ((hjobs b).map Job.id)
    · exact fun b other hm => hcalls ▸ h.chains.calls b other (hold b other hm)
    · exact fun handover hm => hfresh ▸ h.chains.handed handover (hhanded ▸ hm)
  · exact fun b other hm => (h.jobs b other (hold b other hm)).congr (howner b other hm) hturn hlog
      hhanded hdisk (congrFun hcalls _)

/-- The running call of an adapter settles. -/
theorem Serial.settled {owner : Option (A × ℕ)} {outcome : Outcome B}
    (h : Serial namespaces first s) (hj : s.jobs a = job::rest) (howner : owner = s.owner ∨ s.owner = some (a,job.id))
    (hsettled : ∀ rows, outcome = .resolved rows → SettledOk s job.id rows) :
    Serial namespaces first (settle {s with owner := owner} a job rest outcome) := by
  have hmem : ∀ b, ∀ other ∈ update s.jobs a rest b, other ∈ s.jobs b ∧ (b = a → other ∈ rest) := by
    intro b other hm
    by_cases hb : b = a
    · subst hb
      rw [update_self] at hm
      exact ⟨hj ▸ List.mem_cons_of_mem _ hm,fun _ => hm⟩
    · rw [update_of_ne hb] at hm
      exact ⟨hm,fun heq => absurd heq hb⟩
  refine h.shrink ?_ ?_ rfl rfl rfl rfl rfl rfl rfl ?_
  · intro b
    change (update s.jobs a rest b).Sublist (s.jobs b)
    by_cases hb : b = a
    · subst hb
      rw [update_self,hj]
      exact List.sublist_cons_self job rest
    · rw [update_of_ne hb]
  · intro b other hm hown
    rcases howner with hsame | hmine
    · exact hsame.trans hown
    · have hne := h.chains.ne hj (hmem b other hm).2
      rw [hmine] at hown
      exact absurd (Option.some.inj hown) hne
  · intro id rows hr
    change update s.results job.id (some outcome) id = some (.resolved rows) at hr
    by_cases hid : id = job.id
    · subst hid
      rw [update_self] at hr
      exact .inr (hsettled rows (Option.some.inj hr))
    · rw [update_of_ne hid] at hr
      exact .inl hr

omit [DecidableEq A] in
/-- While nothing is committed under the current acquisition, all commits are
before it. -/
theorem Uncommitted.committedBefore_eq (h : Uncommitted s) : committedBefore s.log s.turn = s.log :=
  List.filter_eq_self.mpr fun commit hm => decide_eq_true (h commit hm)

omit [DecidableEq A] in
/-- What the snapshot file reads as is what the commits left. -/
theorem HistoryOk.read_left {text : SnapshotText B} {imported : Option (AtomicRows B)}
    (h : HistoryOk namespaces first s) (hfile : s.disk.file = some text)
    (hdecode : decodeRows namespaces text = some rows) : LeftBy namespaces first imported s.log rows := by
  have hafter := h.file
  rw [hfile] at hafter
  unfold fileAfter at hafter
  unfold LeftBy
  cases hlast : s.log.getLast? with
  | some commit =>
    rw [hlast] at hafter
    rw [Option.some.inj hafter] at hdecode
    exact decodeRows_encodeRows hdecode
  | none =>
    have hfirst : first = some text := by
      rw [hlast] at hafter
      exact hafter.symm
    rw [hfirst]
    exact hdecode

omit [DecidableEq A] in
/-- Without a snapshot file nothing was committed yet. -/
theorem HistoryOk.import_left (h : HistoryOk namespaces first s) (hfile : s.disk.file = none) :
    LeftBy namespaces first (some rows) s.log rows := by
  have hafter := h.file
  rw [hfile] at hafter
  unfold fileAfter at hafter
  unfold LeftBy
  cases hlast : s.log.getLast? with
  | some commit =>
    rw [hlast] at hafter
    cases hafter
  | none =>
    have hfirst : first = none := by
      rw [hlast] at hafter
      exact hafter.symm
    rw [hfirst]

/-- Rows left by the commits go to the callback. -/
theorem Serial.handedOver {imports : ℕ → Option (AtomicRows B)} (h : Serial namespaces first s)
    (hj : s.jobs a = job::rest) (howner : s.owner = some (a,job.id)) (hu : Unserved s job.id)
    (hc : Uncommitted s) (ht : ∀ handover ∈ s.handed, handover.turn < s.turn)
    (himports : ∀ id, id ≠ job.id → imports id = s.imports id)
    (hleft : LeftBy namespaces first (imports job.id) s.log rows) :
    Serial namespaces first (handOver {s with imports := imports} a job rest rows) := by
  have hhistory : HistoryOk namespaces first
      {s with imports := imports, handed := s.handed++[⟨s.turn,job.id,rows⟩]} := by
    constructor
    · exact h.history.sorted
    · exact h.history.logTurn
    · intro handover hm
      rcases List.mem_append.mp hm with hold | hnew
      · exact h.history.handedTurn handover hold
      · cases List.mem_singleton.mp hnew
        exact Nat.le_refl _
    · intro handover hm twin htwin heq
      rcases List.mem_append.mp hm with hold | hnew <;>
        rcases List.mem_append.mp htwin with hold' | hnew'
      · exact h.history.unique handover hold twin hold' heq
      · rw [List.mem_singleton.mp hnew'] at heq
        rcases heq with hturn | hcall
        · exact absurd hturn (Nat.ne_of_lt (ht handover hold))
        · exact absurd hcall (hu handover hold)
      · rw [List.mem_singleton.mp hnew] at heq
        rcases heq with hturn | hcall
        · exact absurd hturn.symm (Nat.ne_of_lt (ht twin hold'))
        · exact absurd hcall.symm (hu twin hold')
      · rw [List.mem_singleton.mp hnew,List.mem_singleton.mp hnew']
    · exact h.history.file
    · intro handover hm
      rcases List.mem_append.mp hm with hold | hnew
      · have hkept := h.history.left handover hold
        rw [← himports _ (hu handover hold)] at hkept
        exact hkept
      · rw [List.mem_singleton.mp hnew]
        change LeftBy namespaces first (imports job.id) (committedBefore s.log s.turn) rows
        rw [hc.committedBefore_eq]
        exact hleft
    · intro commit hm
      have hcommit := h.history.commits commit hm
      exact ⟨List.mem_append_left _ hcommit.handed,hcommit.call,hcommit.change⟩
    · intro id last hr
      exact (h.history.settled id last hr).mono rfl (fun _ hm => List.mem_append_left _ hm)
        (fun _ hm => hm)
  refine h.holder hj (.inr howner) rfl rfl rfl ?_ ?_ (fun _ hm => hm) hhistory ?_
  · exact fun _ hm => List.mem_append_left _ hm
  · intro handover hm
    rcases List.mem_append.mp hm with hold | hnew
    · exact .inl hold
    · rw [List.mem_singleton.mp hnew]
      exact .inr rfl
  · exact ⟨howner,hc,List.mem_append_right _ (List.mem_singleton.mpr rfl)⟩

omit [DecidableEq A] in
/-- A commit of the current acquisition is not before any hand-over so far. -/
theorem HistoryOk.committedBefore_append {commit : Commit B} {handover : Handover B}
    (h : HistoryOk namespaces first s) (hturn : commit.turn = s.turn) (hm : handover ∈ s.handed) :
    committedBefore (s.log++[commit]) handover.turn = committedBefore s.log handover.turn := by
  have hle := h.handedTurn handover hm
  have hnot : ¬commit.turn < handover.turn := by omega
  unfold committedBefore
  rw [List.filter_append]
  simp [hnot]

omit [DecidableEq A] in
/-- A rename appends its commit. -/
theorem HistoryOk.commit {change : AtomicRows B → Option (AtomicRows B)} {id : ℕ} {disk : Disk B}
    (h : HistoryOk namespaces first s) (hc : Uncommitted s) (hm : ⟨s.turn,id,before⟩ ∈ s.handed)
    (hcall : s.calls id = some (.transaction change (some true)))
    (hchange : change before = some rows) (hdisk : disk.file = some (encodeRows rows)) :
    HistoryOk namespaces first {s with disk := disk, log := s.log++[⟨s.turn,id,change,before,rows⟩]} := by
  constructor
  · refine List.pairwise_append.mpr ⟨h.sorted,List.pairwise_singleton _ _,?_⟩
    intro commit hold last hlast
    rw [List.mem_singleton.mp hlast]
    exact hc commit hold
  · intro commit hmem
    rcases List.mem_append.mp hmem with hold | hnew
    · exact h.logTurn commit hold
    · cases List.mem_singleton.mp hnew
      exact Nat.le_refl _
  · exact h.handedTurn
  · exact h.unique
  · change disk.file = fileAfter first (s.log++[⟨s.turn,id,change,before,rows⟩])
    rw [hdisk]
    simp [fileAfter]
  · intro handover hmem
    change LeftBy namespaces first (s.imports handover.call) (committedBefore (s.log++_) _) _
    rw [h.committedBefore_append rfl hmem]
    exact h.left handover hmem
  · intro commit hmem
    rcases List.mem_append.mp hmem with hold | hnew
    · have hcommit := h.commits commit hold
      exact ⟨hcommit.handed,hcommit.call,hcommit.change⟩
    · rw [List.mem_singleton.mp hnew]
      exact ⟨hm,hcall,hchange⟩
  · intro other last hr
    exact (h.settled other last hr).mono rfl (fun _ hmem => hmem)
      (fun _ hmem => List.mem_append_left _ hmem)

end Baileyrs.SnapshotTransactions
