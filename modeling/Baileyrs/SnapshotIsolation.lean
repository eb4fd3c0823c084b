import Baileyrs.SnapshotSerial

/-!
# Isolation of snapshot transactions

Every step of an adapter keeps the record of the lock order, whatever fails
and whenever a process crashes. Reads and changes therefore see exactly the
rows of the commits before them, and the snapshot file changes only by the
commit of a call whose change returned.
-/

namespace Baileyrs.SnapshotTransactions

open LabelledRuns SnapshotRows Function

variable {A P B : Type*} [DecidableEq A] {process : A → P} {namespaces : List JsString}
  {first : Option (SnapshotText B)} {s s' : State A P B} {a : A} {job : Job B}
  {rest : List (Job B)} {rows before : AtomicRows B}

/-- A call may always end by rejecting. -/
theorem Serial.reject (h : Serial namespaces first s) (hj : s.jobs a = job::rest) :
    Serial namespaces first (advance s a job rest (.closing .rejected)) :=
  h.moved hj (fun _ hr => nomatch hr)

omit [DecidableEq A] in
/-- The running call achieved what its stage says. -/
theorem Serial.stage {stage : Stage B} (h : Serial namespaces first s)
    (hj : s.jobs a = job::rest) (hstage : job.stage = stage) : StageOk s a job.id job.call stage := by
  have hok := h.jobs a job (hj ▸ List.mem_cons_self)
  unfold JobOk at hok
  rw [hstage] at hok
  exact hok

/-- Acquiring a free lock starts a new turn. -/
theorem Serial.acquire (h : Serial namespaces first s) (hj : s.jobs a = job::rest)
    (hu : Unserved s job.id) (hfree : s.owner = none) : Serial namespaces first
      (advance {s with owner := some (a,job.id), turn := s.turn+1} a job rest .reading) := by
  refine h.holder hj (.inl hfree) rfl rfl rfl (fun _ hm => hm) (fun _ hm => .inl hm)
    (fun _ hm => hm) ?_ ?_
  · exact h.history.congr (Nat.le_succ _) (fun _ _ => rfl) rfl rfl rfl rfl fun _ _ => .inl
  · refine ⟨rfl,hu,?_,?_⟩
    · intro commit hm
      have hle := h.history.logTurn commit hm
      exact Nat.lt_succ_of_le hle
    · intro handover hm
      have hle := h.history.handedTurn handover hm
      exact Nat.lt_succ_of_le hle

/-- Reading the snapshot under the lock. -/
theorem Serial.rowsRead (h : Serial namespaces first s) (hj : s.jobs a = job::rest)
    (hstage : job.stage = .reading) : Serial namespaces first (readRows namespaces s a job rest) := by
  obtain ⟨hown,hu,hc,ht⟩ := h.stage hj hstage
  cases hfile : s.disk.file with
  | none =>
    have hread : readRows namespaces s a job rest = advance s a job rest .importing := by
      simp only [readRows,hfile]
    rw [hread]
    exact h.moved hj ⟨hown,hu,hc,hfile,ht⟩
  | some text =>
    cases hdecode : decodeRows namespaces text with
    | none =>
      have hread : readRows namespaces s a job rest =
          advance s a job rest (.closing .rejected) := by
        simp only [readRows,hfile,hdecode]
      rw [hread]
      exact h.reject hj
    | some rows =>
      have hread : readRows namespaces s a job rest = handOver s a job rest rows := by
        simp only [readRows,hfile,hdecode]
      rw [hread]
      exact h.handedOver hj hown hu hc ht (fun _ _ => rfl) (h.history.read_left hfile hdecode)

/-- Importing rows without a snapshot file. -/
theorem Serial.rowsImported (h : Serial namespaces first s) (hj : s.jobs a = job::rest)
    (hstage : job.stage = .importing) :
    Serial namespaces first
      (handOver {s with imports := update s.imports job.id (some rows)}
        a job rest rows) := by
  obtain ⟨hown,hu,hc,hfile,ht⟩ := h.stage hj hstage
  refine h.handedOver hj hown hu hc ht (fun id hid => update_of_ne hid _ _) ?_
  rw [update_self]
  exact h.history.import_left hfile

/-- The callback settles. -/
theorem Serial.calledBack (h : Serial namespaces first s) (hj : s.jobs a = job::rest)
    (hstage : job.stage = .calling rows) :
    Serial namespaces first (advance s a job rest (afterCallback rows job.call)) := by
  obtain ⟨hown,hc,hm⟩ := h.stage hj hstage
  have hcalls := h.chains.calls a job (hj ▸ List.mem_cons_self)
  refine h.moved hj ?_
  cases hcall : job.call with
  | read settles =>
    intro last hlast
    cases settles with
    | false => cases hlast
    | true =>
      cases hlast
      refine ⟨_,hm,rfl,?_⟩
      rw [hcalls,hcall]
  | transaction change shouldPersist =>
    cases hchange : change rows with
    | none =>
      simp only [afterCallback,hchange]
      exact fun _ hlast => nomatch hlast
    | some changed =>
      cases shouldPersist with
      | none =>
        simp only [afterCallback,hchange]
        exact fun _ hlast => nomatch hlast
      | some persists =>
        cases persists with
        | true =>
          simp only [afterCallback,hchange]
          exact ⟨hown,hm,⟨change,rfl,hchange⟩,hc⟩
        | false =>
          simp only [afterCallback,hchange]
          intro last hlast
          cases hlast
          refine ⟨_,hm,rfl,?_⟩
          rw [hcalls,hcall]
          exact ⟨hchange,nofun⟩

/-- Changes of the folder other than the snapshot file, by the holder. -/
theorem Serial.touch {disk : Disk B} {io : Publication} (h : Serial namespaces first s)
    (hj : s.jobs a = job::rest) {last : Publication}
    (hstage : job.stage = .persisting before rows last) (hfile : disk.file = s.disk.file)
    (hio : PublicationOk {s with disk := disk} job.id before rows io) :
    Serial namespaces first
      (advance {s with disk := disk} a job rest (.persisting before rows io)) := by
  obtain ⟨hown,hm,hcall,_⟩ := h.stage hj hstage
  refine h.holder hj (.inr hown) rfl rfl rfl (fun _ hm => hm) (fun _ hm => .inl hm)
    (fun _ hm => hm) ?_ ?_
  · exact h.history.congr (Nat.le_refl _) (fun _ _ => rfl) rfl rfl rfl hfile fun _ _ => .inl
  · exact ⟨hown,hm,hcall,hio⟩

omit [DecidableEq A] in
/-- A persisted call that committed settled as it reports. -/
theorem Serial.committed (h : Serial namespaces first s) (hj : s.jobs a = job::rest)
    {last : Publication} (hstage : job.stage = .persisting before rows last)
    (hcommit : ∃ commit ∈ s.log, commit.call = job.id ∧ commit.before = before ∧
      commit.after = rows) : SettledOk s job.id rows := by
  obtain ⟨_,hm,⟨change,hcall,hchange⟩,_⟩ := h.stage hj hstage
  refine ⟨_,hm,rfl,?_⟩
  rw [h.chains.calls a job (hj ▸ List.mem_cons_self),hcall]
  exact ⟨hchange,fun _ => hcommit⟩

/-- A step of publishing keeps the invariant. -/
theorem publishIo_serial {io : Publication} {ok : Bool} (h : Serial namespaces first s)
    (hj : s.jobs a = job::rest) (hstage : job.stage = .persisting before rows io)
    (hs : publishIo s a job rest before rows ok io = some s') : Serial namespaces first s' := by
  have hok := h.stage hj hstage
  have hio := hok.2.2.2
  have hmove : ∀ next, PublicationOk s job.id before rows next →
      Serial namespaces first (advance s a job rest (.persisting before rows next)) :=
    fun next hnext => h.moved hj ⟨hok.1,hok.2.1,hok.2.2.1,hnext⟩
  unfold publishIo at hs
  split at hs
  · split at hs
    · cases hs
      exact hmove .opening hio
    · split at hs
      · cases hs
        exact h.touch hj hstage rfl hio
      · cases hs
        exact h.reject hj
  · split at hs
    · cases hs
      exact hmove .opening hio
    · cases hs
      exact h.reject hj
  · rename_i tmp
    split at hs
    · cases hs
      exact hmove (.closing tmp) hio
    · cases hs
      exact hmove (.unlinking tmp true) nofun
  · rename_i tmp
    split at hs
    · cases hs
      exact hmove (.replacing tmp) hio
    · cases hs
      exact hmove (.unlinking tmp true) nofun
  · rename_i tmp
    cases hs
    exact hmove (.unlinking tmp !ok) fun _ => hio
  · rename_i tmp failed
    have hclose : ∀ last, (if failed then Outcome.rejected else .resolved rows) = .resolved last →
        SettledOk s job.id last := by
      intro last hlast
      cases failed with
      | true => cases hlast
      | false =>
        cases hlast
        exact h.committed hj hstage (hio rfl)
    dsimp only at hs
    split at hs
    · cases hs
      exact h.moved hj hclose
    · split at hs
      · cases hs
        refine h.holder hj (.inr hok.1) rfl rfl rfl (fun _ hm => hm) (fun _ hm => .inl hm)
          (fun _ hm => hm) ?_ hclose
        exact h.history.congr (Nat.le_refl _) (fun _ _ => rfl) rfl rfl rfl rfl fun _ _ => .inl
      · cases hs
        exact h.reject hj
  · cases hs

/-- So does the rename, whether or not it took effect. -/
theorem publishRename_serial {tmp : ℕ} {reply : RenameReply} (h : Serial namespaces first s)
    (hj : s.jobs a = job::rest) (hstage : job.stage = .persisting before rows (.replacing tmp)) :
    Serial namespaces first (publishRename s a job rest before rows tmp reply) := by
  obtain ⟨hown,hm,⟨change,hcall,hchange⟩,hc,htmp⟩ := h.stage hj hstage
  have hcalls := h.chains.calls a job (hj ▸ List.mem_cons_self)
  have hcommitted : ∀ failed : Bool, reply ≠ .failed →
      Serial namespaces first (advance {s with
          disk := {s.disk with file := s.disk.tmp tmp, tmp := update s.disk.tmp tmp none}
          log := s.log++[⟨s.turn,job.id,change,before,rows⟩]} a job rest
        (.persisting before rows (if failed then .unlinking tmp true else .dirSyncing tmp))) := by
    intro failed _
    refine h.holder hj (.inr hown) rfl rfl rfl (fun _ hm => hm) (fun _ hm => .inl hm)
      (fun _ hm => List.mem_append_left _ hm) ?_ ?_
    · exact h.history.commit hc hm (by rw [hcalls,hcall]) hchange htmp
    · refine ⟨hown,hm,⟨change,hcall,hchange⟩,?_⟩
      cases failed with
      | true => exact nofun
      | false =>
        exact ⟨_,List.mem_append_right _ (List.mem_singleton.mpr rfl),rfl,rfl,rfl⟩
  unfold publishRename
  rw [hcall]
  cases reply with
  | renamed => exact hcommitted false nofun
  | failedAfter => exact hcommitted true nofun
  | failed => exact h.moved hj ⟨hown,hm,⟨change,hcall,hchange⟩,nofun⟩

/-- Every step of a running call keeps the invariant. -/
theorem jobStep_serial {action : Action A P B} (h : Serial namespaces first s) (hj : s.jobs a = job::rest)
    (hs : jobStep namespaces s a job rest action = some s') : Serial namespaces first s' := by
  unfold jobStep at hs
  split at hs
  · split at hs
    · rename_i hstage
      have hu : Unserved s job.id := h.stage hj hstage
      cases hs
      exact h.moved hj hu
    · cases hs
  · split at hs
    · rename_i hstage
      have hu : Unserved s job.id := h.stage hj hstage
      split at hs
      · cases hs
        exact h.moved hj hu
      · cases hs
        exact h.settled hj (.inl rfl) (fun _ hr => nomatch hr)
    · cases hs
  · split at hs
    · rename_i hstage hfree
      cases hs
      exact h.acquire hj (h.stage hj hstage) hfree
    · cases hs
  · split at hs
    · cases hs
      exact h.reject hj
    · cases hs
  · split at hs
    · rename_i hstage
      split at hs
      · cases hs
        exact h.rowsRead hj hstage
      · cases hs
        exact h.reject hj
    · cases hs
  · split at hs
    · rename_i hstage
      cases hs
      exact h.rowsImported hj hstage
    · cases hs
      exact h.reject hj
    · cases hs
  · split at hs
    · rename_i hstage
      cases hs
      exact h.calledBack hj hstage
    · cases hs
  · split at hs
    · rename_i hstage
      exact publishIo_serial h hj hstage hs
    · cases hs
  · split at hs
    · rename_i hstage
      split at hs
      · cases hs
        exact h.touch hj hstage rfl (h.stage hj hstage).2.2.2
      · cases hs
        exact h.reject hj
    · cases hs
  · split at hs
    · rename_i torn _ _ _ tmp hstage
      have hc : Uncommitted s := (h.stage hj hstage).2.2.2
      cases hs
      refine h.touch hj hstage rfl ?_
      cases torn with
      | none =>
        refine ⟨hc,?_⟩
        exact update_self _ _ _
      | some text => exact nofun
    · cases hs
  · split at hs
    · rename_i hstage
      cases hs
      exact publishRename_serial h hj hstage
    · cases hs
  · split at hs
    · rename_i ok released _ outcome hstage
      have hclosing := h.stage hj hstage
      cases hs
      refine h.settled hj ?_ ?_
      · by_cases hmine : s.owner = some (a,job.id)
        · exact .inr hmine
        · exact .inl (if_neg fun hown => hmine hown.1)
      · intro last hlast
        cases ok with
        | true => exact hclosing last hlast
        | false => cases hlast
    · cases hs
  · cases hs

variable [DecidableEq P]

omit [DecidableEq P] in
/-- A new call joins the chain of its adapter. -/
theorem Serial.invoked {call : Call B} (h : Serial namespaces first s) :
    Serial namespaces first {s with
      fresh := s.fresh+1
      jobs := update s.jobs a (s.jobs a++[⟨s.fresh,call,.queued⟩])
      calls := update s.calls s.fresh (some call)} := by
  have hmem : ∀ b, ∀ other ∈ update s.jobs a (s.jobs a++[⟨s.fresh,call,.queued⟩]) b,
      other ∈ s.jobs b ∨ b = a ∧ other = ⟨s.fresh,call,.queued⟩ := by
    intro b other hm
    by_cases hb : b = a
    · subst hb
      rw [update_self] at hm
      rcases List.mem_append.mp hm with hold | hnew
      · exact .inl hold
      · exact .inr ⟨rfl,List.mem_singleton.mp hnew⟩
    · rw [update_of_ne hb] at hm
      exact .inl hm
  have hcalls : ∀ id, id < s.fresh → update s.calls s.fresh (some call) id = s.calls id :=
    fun id hid => update_of_ne (Nat.ne_of_lt hid) _ _
  constructor
  · constructor
    · exact h.history.sorted
    · exact h.history.logTurn
    · exact h.history.handedTurn
    · exact h.history.unique
    · exact h.history.file
    · exact h.history.left
    · intro commit hm
      have hcommit := h.history.commits commit hm
      have hlt := h.chains.handed _ hcommit.handed
      exact ⟨hcommit.handed,(hcalls _ hlt).trans hcommit.call,hcommit.change⟩
    · intro id rows hr
      have hsettled := h.history.settled id rows hr
      obtain ⟨handover,hm,hcall,_⟩ := hsettled
      have hlt := h.chains.handed handover hm
      rw [hcall] at hlt
      exact (h.history.settled id rows hr).mono (hcalls id hlt) (fun _ hm => hm) (fun _ hm => hm)
  · constructor
    · intro b other hm
      rcases hmem b other hm with hold | ⟨_,rfl⟩
      · exact Nat.lt_succ_of_lt (h.chains.fresh b other hold)
      · exact Nat.lt_succ_self _
    · intro b c other hm last hl heq
      rcases hmem b other hm with hold | ⟨rfl,rfl⟩ <;> rcases hmem c last hl with hold' | ⟨rfl,rfl⟩
      · exact h.chains.distinct b c other hold last hold' heq
      · exact absurd heq (Nat.ne_of_lt (h.chains.fresh b other hold))
      · exact absurd heq.symm (Nat.ne_of_lt (h.chains.fresh c last hold'))
      · rfl
    · intro b
      change ((update s.jobs a _ b).map Job.id).Nodup
      by_cases hb : b = a
      · subst hb
        rw [update_self,List.map_append]
        refine List.nodup_append.mpr ⟨h.chains.nodup b,List.nodup_singleton _,?_⟩
        intro id hid other hother heq
        obtain ⟨old,hold,rfl⟩ := List.mem_map.mp hid
        have hlt := h.chains.fresh b old hold
        rw [heq,List.mem_singleton.mp hother] at hlt
        exact absurd hlt (Nat.lt_irrefl _)
      · rw [update_of_ne hb]
        exact h.chains.nodup b
    · intro b other hm
      rcases hmem b other hm with hold | ⟨_,rfl⟩
      · exact (hcalls _ (h.chains.fresh b other hold)).trans (h.chains.calls b other hold)
      · exact update_self _ _ _
    · exact fun handover hm => Nat.lt_succ_of_lt (h.chains.handed handover hm)
  · intro b other hm
    rcases hmem b other hm with hold | ⟨_,rfl⟩
    · exact (h.jobs b other hold).congr id rfl rfl rfl rfl (hcalls _ (h.chains.fresh b other hold))
    · exact fun handover hm => Nat.ne_of_lt (h.chains.handed handover hm)

omit [DecidableEq A] in
/-- A crashed process leaves only what it published. -/
theorem Serial.crashed {p : P} (h : Serial namespaces first s) : Serial namespaces first (crash process s p) := by
  refine h.shrink ?_ ?_ rfl rfl rfl rfl rfl rfl rfl fun _ _ => .inl
  · intro b
    change (if process b = p then [] else s.jobs b).Sublist (s.jobs b)
    split
    · exact List.nil_sublist _
    · exact List.Sublist.refl _
  · intro b other hm hown
    change other ∈ (if process b = p then [] else s.jobs b) at hm
    split at hm
    · cases hm
    · rename_i hlive
      change s.owner.filter (fun holder => process holder.1 ≠ p) = some (b,other.id)
      rw [hown]
      simp [hlive]

/-- Every step keeps the invariant. -/
theorem step_serial {action : Action A P B} (h : Serial namespaces first s)
    (hs : step process namespaces s action = some s') : Serial namespaces first s' := by
  unfold step at hs
  split at hs
  · split at hs
    · cases hs
    · cases hs
      exact h.invoked
  · cases hs
    exact h.crashed
  · split at hs
    · rename_i hj
      exact jobStep_serial h hj hs
    · cases hs
  · cases hs

omit [DecidableEq A] [DecidableEq P] in
/-- The invariant holds before any call. -/
theorem opened_serial (h : Opened s) : Serial namespaces s.disk.file s := by
  have hjobs : ∀ a, ∀ job, job ∉ s.jobs a := fun a job hm => by
    rw [h.jobs a] at hm
    cases hm
  have hlog : ∀ commit, commit ∉ s.log := fun commit hm => by
    rw [h.log] at hm
    cases hm
  have hhanded : ∀ handover, handover ∉ s.handed := fun handover hm => by
    rw [h.handed] at hm
    cases hm
  constructor
  · constructor
    · rw [h.log]
      exact List.Pairwise.nil
    · exact fun commit hm => absurd hm (hlog commit)
    · exact fun handover hm => absurd hm (hhanded handover)
    · exact fun handover hm => absurd hm (hhanded handover)
    · rw [h.log]
      rfl
    · exact fun handover hm => absurd hm (hhanded handover)
    · exact fun commit hm => absurd hm (hlog commit)
    · intro id rows hr
      rw [h.results id] at hr
      cases hr
  · constructor
    · exact fun a job hm => absurd hm (hjobs a job)
    · exact fun a _ job hm => absurd hm (hjobs a job)
    · intro a
      rw [h.jobs a]
      exact List.nodup_nil
    · exact fun a job hm => absurd hm (hjobs a job)
    · exact fun handover hm => absurd hm (hhanded handover)
  · exact fun a job hm => absurd hm (hjobs a job)

omit [DecidableEq P] in
theorem publishIo_log {io : Publication} {ok : Bool}
    (hs : publishIo s a job rest before rows ok io = some s') : s'.log = s.log := by
  unfold publishIo at hs
  dsimp only at hs
  split at hs <;> repeat' split at hs
  all_goals cases hs
  all_goals rfl

omit [DecidableEq P] in
theorem publishRename_log {tmp : ℕ} {reply : RenameReply} :
    s.log <+: (publishRename s a job rest before rows tmp reply).log := by
  unfold publishRename
  dsimp only
  split
  · exact List.prefix_rfl
  · cases job.call with
    | read settles => exact List.prefix_rfl
    | transaction change shouldPersist => exact List.prefix_append _ _

omit [DecidableEq P] in
theorem readRows_log : (readRows namespaces s a job rest).log = s.log := by
  unfold readRows
  repeat' split
  all_goals rfl

/-- Commits are never forgotten. -/
theorem step_log {action : Action A P B} (hs : step process namespaces s action = some s') : s.log <+: s'.log := by
  have hsame : ∀ next : State A P B, some next = some s' → next.log = s.log →
      s.log <+: s'.log := by
    intro next heq hlog
    cases heq
    have hprefix : s.log <+: s.log := List.prefix_rfl
    exact hlog ▸ hprefix
  unfold step at hs
  split at hs
  · split at hs
    · cases hs
    · exact hsame _ hs rfl
  · exact hsame _ hs rfl
  · split at hs
    · unfold jobStep at hs
      repeat' split at hs
      all_goals first
        | exact hsame _ hs rfl
        | exact hsame _ hs readRows_log
        | exact hsame _ rfl (publishIo_log hs)
        | (cases hs; exact publishRename_log)
        | cases hs
    · cases hs
  · cases hs

/-- What one snapshot file promises to all its adapters, given what the file
held first. -/
structure Isolated (process : A → P) (namespaces : List JsString) (first : Option (SnapshotText B))
    (s : State A P B) : Prop where
  /-- Commits happen in the order of the lock. -/
  order : s.log.Pairwise fun commit later => commit.turn < later.turn
  /-- A read or a change gets the rows left by exactly the commits before it. -/
  reads : ∀ handover ∈ s.handed, LeftBy namespaces first (s.imports handover.call)
    (committedBefore s.log handover.turn) handover.rows
  /-- A call gets rows once, and so does every acquisition of the lock. -/
  once : ∀ handover ∈ s.handed, ∀ twin ∈ s.handed,
    handover.turn = twin.turn ∨ handover.call = twin.call → handover = twin
  /-- A commit publishes what its change made of the rows it got. -/
  commits : ∀ commit ∈ s.log, CommitOk s commit
  /-- The snapshot file holds the rows of the last commit. -/
  file : s.disk.file = fileAfter first s.log
  /-- No later step loses a commit. -/
  kept : ∀ labels last, run (step process namespaces) s labels = some last → s.log <+: last.log
  /-- A resolved read returned the rows it got, a resolved transaction those
  of its change, and with persistence on these are committed. -/
  resolved : ∀ id rows, s.results id = some (.resolved rows) → SettledOk s id rows
  /-- A change that throws commits nothing. -/
  thrown : ∀ handover ∈ s.handed, ∀ change shouldPersist,
    s.calls handover.call = some (.transaction change shouldPersist) →
      change handover.rows = none → ∀ commit ∈ s.log, commit.call ≠ handover.call

/-- In every run over any adapters, with any failures and crashes, the
snapshot file isolates its transactions. -/
theorem transactions_isolated {labels : List (Action A P B)} (hopened : Opened s)
    (hr : run (step process namespaces) s labels = some s') :
    Isolated process namespaces s.disk.file s' := by
  have h : Serial namespaces s.disk.file s' :=
    run_invariant (P := Serial namespaces s.disk.file) (fun _ _ _ => step_serial) hr
      (opened_serial hopened)
  constructor
  · exact h.history.sorted
  · exact h.history.left
  · exact h.history.unique
  · exact h.history.commits
  · exact h.history.file
  · intro later last hlater
    exact run_relation (P := fun _ => True) (R := fun s s' => s.log <+: s'.log)
      (fun _ => List.prefix_rfl) (fun _ _ _ => List.IsPrefix.trans)
      (fun _ _ _ _ hs => ⟨trivial,step_log hs⟩) hlater trivial
  · exact h.history.settled
  · intro handover hm change shouldPersist hcall hthrows commit hcommit hsame
    have hok := h.history.commits commit hcommit
    have htwin := h.history.unique _ hok.handed handover hm (.inr hsame)
    have hchange := hok.change
    have hrows : commit.before = handover.rows := congrArg Handover.rows htwin
    have hsamecall : Call.transaction commit.change (some true) =
        .transaction change shouldPersist := by
      rw [← hsame,hok.call] at hcall
      exact Option.some.inj hcall
    cases hsamecall
    rw [hrows,hthrows] at hchange
    cases hchange

/-- Two adapters in two processes over an empty folder. -/
def emptyFolder : State Bool Bool ℕ where
  fresh := 0
  disk := ⟨none,fun _ => none,false⟩
  owner := none
  jobs := fun _ => []
  crashed := fun _ => false
  turn := 0
  calls := fun _ => none
  results := fun _ => none
  imports := fun _ => none
  log := []
  handed := []

/-- One known namespace. -/
def metaOnly : List JsString := [JsString.ofString "meta"]

/-- Store one row. -/
def storeRow (rows : AtomicRows ℕ) : Option (AtomicRows ℕ) :=
  some (rows.set (rowKey (JsString.ofString "meta") (JsString.ofString "a")) 1)

/-- One process crashes right after its rename; the other one then reads. -/
def crashedRun : List (Action Bool Bool ℕ) :=
  [.invoke false (.transaction storeRow (some true)),.invoke true (.read true),
    .start false,.openLock false true,.start true,.openLock true true,.tryLock false,
    .readFile false true,.importRows false (some InsertionMap.empty),.callback false,
    .io false true,.openTmp false 7 true,.writeFile false none,.io false true,.io false true,
    .rename false .renamed,.crash false,.tryLock true,.readFile true true,.callback true,
    .closeLock true true true]

theorem transactions_isolated_crash :
    Isolated id metaOnly none (after (step id metaOnly) emptyFolder crashedRun) ∧
      (after (step id metaOnly) emptyFolder crashedRun).handed.map (fun h => h.rows.entries) =
        [[],[(rowKey (JsString.ofString "meta") (JsString.ofString "a"),1)]] := by
  have hopened : Opened emptyFolder :=
    ⟨fun _ => rfl,fun _ => rfl,fun _ => rfl,fun _ => rfl,rfl,rfl⟩
  have hr : run (step id metaOnly) emptyFolder crashedRun =
      some (after (step id metaOnly) emptyFolder crashedRun) := run_after (by decide +kernel)
  constructor
  · exact transactions_isolated hopened hr
  · decide +kernel

end Baileyrs.SnapshotTransactions
