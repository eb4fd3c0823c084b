import Baileyrs.BridgeStore

/-!
# What the store knows about one key

Between operations a key is at rest: an uncertain key has no durable entry, a
durable entry is the content of the file, and the last mutation of a certain
key's file is not left without its barrier. A suspended operation keeps a
weaker form, stated per suspension point. Steps on one key leave every other
key as it was, up to evicted durable knowledge.
-/

namespace Baileyrs.BridgeStore

open LabelledRuns Function

/-- The second state holds for one key what the first does, up to evicted
durable knowledge. -/
structure SameContent (s s' : State) (k : StoreKey) : Prop where
  /-- Same debounced write. -/
  pending : s'.pendingWrites.get k = s.pendingWrites.get k
  /-- Same uncertainty. -/
  uncertain : k ∈ s'.uncertain ↔ k ∈ s.uncertain
  /-- Same file. -/
  disk : s'.disk k = s.disk k
  /-- Same barrier. -/
  barrier : s'.barrier k = s.barrier k
  /-- Same durable entry, or none. -/
  durable : s'.durable.get k = s.durable.get k ∨ s'.durable.get k = none

/-- The second state holds for one key what the first does, with the same
operation suspended. -/
structure SameAt (s s' : State) (k : StoreKey) : Prop extends SameContent s s' k where
  /-- Same suspended operation. -/
  running : (s'.chains k).running = (s.chains k).running

theorem SameAt.refl (s : State) (k : StoreKey) : SameAt s s k :=
  ⟨⟨rfl,Iff.rfl,rfl,rfl,Or.inl rfl⟩,rfl⟩

theorem SameContent.trans {s mid last : State} {k : StoreKey} (h₁ : SameContent s mid k)
    (h₂ : SameContent mid last k) : SameContent s last k where
  pending := h₂.pending.trans h₁.pending
  uncertain := h₂.uncertain.trans h₁.uncertain
  disk := h₂.disk.trans h₁.disk
  barrier := h₂.barrier.trans h₁.barrier
  durable := by
    rcases h₂.durable with h | h
    · rw [h]
      exact h₁.durable
    · exact Or.inr h

theorem SameAt.trans {s mid last : State} {k : StoreKey} (h₁ : SameAt s mid k)
    (h₂ : SameAt mid last k) : SameAt s last k :=
  ⟨h₁.toSameContent.trans h₂.toSameContent,h₂.running.trans h₁.running⟩

/-- A surviving durable entry was there before. -/
theorem SameContent.durable_some {s s' : State} {k : StoreKey} {value : Bytes} (h : SameContent s s' k)
    (hv : s'.durable.get k = some value) : s.durable.get k = some value := by
  rcases h.durable with hd | hd
  · exact hd ▸ hv
  · rw [hd] at hv
    cases hv

/-- Remembering a key's bytes leaves at most those bytes under the key. -/
theorem rememberDurable_self {s : State} {k : StoreKey} {value known : Bytes}
    (h : (rememberDurable s k value).durable.get k = some known) : known = value := by
  have hset : ((s.durable.delete k).set k value).get k = some value :=
    InsertionMap.get_set_self _ _ _
  simp only [rememberDurable] at h
  split at h
  · have hd := InsertionMap.get_dropOldest h
    rw [hset] at hd
    exact (Option.some.inj hd).symm
  · rw [hset] at h
    exact (Option.some.inj h).symm

/-- Remembering a key's bytes can only evict another key's entry. -/
theorem rememberDurable_ne (s : State) {k other : StoreKey} (value : Bytes) (h : k ≠ other) :
    (rememberDurable s k value).durable.get other = s.durable.get other ∨
      (rememberDurable s k value).durable.get other = none := by
  have hset : ((s.durable.delete k).set k value).get other = s.durable.get other := by
    rw [InsertionMap.get_set_ne _ _ h,InsertionMap.get_delete_ne _ h]
  simp only [rememberDurable]
  split
  · cases hd : ((s.durable.delete k).set k value).dropOldest.get other with
    | none => exact Or.inr rfl
    | some known =>
      left
      rw [← hset]
      exact (InsertionMap.get_dropOldest hd).symm
  · exact Or.inl hset

section OtherKeys

variable (s : State) {k other : StoreKey} (job : Job)

theorem settle_sameAt (outcome : Outcome) (h : k ≠ other) : SameAt s (settle s k job outcome) other :=
  ⟨⟨rfl,Iff.rfl,rfl,rfl,Or.inl rfl⟩,by simp [settle,h.symm]⟩

theorem suspend_sameAt (awaiting : Awaiting) (h : k ≠ other) : SameAt s (suspend s k job awaiting) other :=
  ⟨⟨rfl,Iff.rfl,rfl,rfl,Or.inl rfl⟩,by simp [suspend,h.symm]⟩

theorem rememberDurable_sameAt (value : Bytes) (h : k ≠ other) : SameAt s (rememberDurable s k value) other :=
  ⟨⟨rfl,Iff.rfl,rfl,rfl,rememberDurable_ne s value h⟩,rfl⟩

theorem clearTimeout_sameAt (timer : Option TimerHandle) : SameAt s (clearTimeout s timer) other :=
  ⟨⟨rfl,Iff.rfl,rfl,rfl,Or.inl rfl⟩,rfl⟩

theorem armTimer_sameAt (entry : PendingEntry) (h : k ≠ other) : SameAt s (armTimer s k entry) other :=
  ⟨⟨InsertionMap.get_set_ne _ _ h,Iff.rfl,rfl,rfl,Or.inl rfl⟩,rfl⟩

theorem addFailed_sameAt (scope : Option ScopeId) (entry : PendingEntry) :
    SameAt s (addFailed s scope entry) other := by
  cases scope <;> exact ⟨⟨rfl,Iff.rfl,rfl,rfl,Or.inl rfl⟩,rfl⟩

theorem certifyBarrier_sameAt (h : k ≠ other) : SameAt s (certifyBarrier s k) other :=
  ⟨⟨rfl,by simp [certifyBarrier,h.symm],rfl,by simp [certifyBarrier,h.symm],Or.inl rfl⟩,rfl⟩

theorem renameEffect_sameAt (write : Write) (h : k ≠ other) : SameAt s (renameEffect s k write) other :=
  ⟨⟨rfl,Iff.rfl,by simp [renameEffect,h.symm],by simp [renameEffect,h.symm],Or.inl rfl⟩,rfl⟩

theorem enqueue_sameAt (k : StoreKey) (op : JobOp) : SameAt s (enqueue s k op) other := by
  refine ⟨⟨rfl,Iff.rfl,rfl,rfl,Or.inl rfl⟩,?_⟩
  by_cases h : other = k
  · subst h
    simp [enqueue]
  · simp [enqueue,h]

theorem restoreDeleteState_sameAt (prev : Captured) (h : k ≠ other) : SameAt s (restoreDeleteState s k prev) other := by
  unfold restoreDeleteState
  dsimp only
  cases prev.prevDurable with
  | some value =>
    have hremembered := rememberDurable_sameAt s value h
    cases prev.prevPending with
    | some entry => exact hremembered.trans (armTimer_sameAt _ entry h)
    | none => exact hremembered
  | none => cases prev.prevPending with
    | some entry => exact armTimer_sameAt s entry h
    | none => exact SameAt.refl s other

theorem certifyWrite_sameAt (write : Write) (h : k ≠ other) : SameAt s (certifyWrite s k job write) other := by
  have hcertified := (certifyBarrier_sameAt s h).trans
    (rememberDurable_sameAt (certifyBarrier s k) write.value h)
  unfold certifyWrite
  dsimp only
  cases write.entry with
  | none => exact hcertified.trans (settle_sameAt _ job _ h)
  | some entry =>
    refine SameAt.trans ?_ (settle_sameAt _ job _ h)
    split
    · split
      · exact hcertified.trans
          ⟨⟨InsertionMap.get_delete_ne _ h,Iff.rfl,rfl,rfl,Or.inl rfl⟩,rfl⟩
      · exact hcertified
    · exact hcertified

theorem rejectWrite_sameAt (write : Write) (h : k ≠ other) : SameAt s (rejectWrite s k job write) other := by
  unfold rejectWrite
  split
  · exact (addFailed_sameAt s _ _).trans (settle_sameAt _ job _ h)
  · exact settle_sameAt s job _ h

/-- Starting an operation on one key leaves the other keys as they were. -/
theorem startJob_sameAt (h : k ≠ other) : SameAt s (startJob s k job) other := by
  unfold startJob
  split
  · rename_i value _
    unfold doSetLocked
    dsimp only
    split
    · exact settle_sameAt s job _ h
    · split
      · refine SameAt.trans ?_ (suspend_sameAt _ job _ h)
        exact ⟨⟨InsertionMap.get_delete_ne _ h,Iff.rfl,rfl,rfl,Or.inl rfl⟩,rfl⟩
      · refine SameAt.trans ?_ (settle_sameAt _ job _ h)
        exact ⟨⟨InsertionMap.get_set_ne _ _ h,Iff.rfl,rfl,rfl,Or.inl rfl⟩,rfl⟩
  · unfold doGetLocked
    split
    · exact settle_sameAt s job _ h
    · dsimp only
      split
      · exact settle_sameAt s job _ h
      · exact suspend_sameAt s job _ h
  · unfold doDeleteOne
    refine SameAt.trans ?_ (suspend_sameAt _ job _ h)
    exact ⟨⟨InsertionMap.get_delete_ne _ h,Iff.rfl,rfl,rfl,Or.inl (InsertionMap.get_delete_ne _ h)⟩,rfl⟩
  · unfold flushOne
    split
    · exact settle_sameAt s job _ h
    · split
      · exact settle_sameAt s job _ h
      · refine SameAt.trans ?_ (suspend_sameAt _ job _ h)
        exact ⟨⟨InsertionMap.get_set_ne _ _ h,Iff.rfl,rfl,rfl,Or.inl rfl⟩,rfl⟩

end OtherKeys

/-- Continuing an operation on one key leaves the other keys as they were. -/
theorem ioJob_sameAt {s s' : State} {k other : StoreKey} {job : Job} {awaiting : Awaiting}
    {outcome : IoOutcome} (hio : ioJob s k job awaiting outcome = some s') (h : k ≠ other) : SameAt s s' other := by
  have hunlinked : SameAt s {s with
      disk := update s.disk k none
      barrier := update s.barrier k .incomplete} other :=
    ⟨⟨rfl,Iff.rfl,by simp [h.symm],by simp [h.symm],Or.inl rfl⟩,rfl⟩
  have huncertain : SameAt s {s with uncertain := insert k s.uncertain} other :=
    ⟨⟨rfl,by simp [h.symm],rfl,rfl,Or.inl rfl⟩,rfl⟩
  have hdiscarded : SameAt s {s with
      durable := s.durable.delete k
      uncertain := insert k s.uncertain} other :=
    ⟨⟨rfl,by simp [h.symm],rfl,rfl,Or.inl (InsertionMap.get_delete_ne _ h)⟩,rfl⟩
  unfold ioJob at hio
  split at hio
  · cases hio
    exact suspend_sameAt s job _ h
  · split at hio
    · cases hio
      exact suspend_sameAt s job _ h
    · cases hio
      exact rejectWrite_sameAt s job _ h
  · cases hio
    exact rejectWrite_sameAt s job _ h
  · cases hio
    exact (renameEffect_sameAt s _ h).trans (suspend_sameAt _ job _ h)
  · cases hio
    exact (renameEffect_sameAt s _ h).trans (suspend_sameAt _ job _ h)
  · cases hio
    exact suspend_sameAt s job _ h
  · cases hio
    exact certifyWrite_sameAt s job _ h
  · cases hio
    exact suspend_sameAt s job _ h
  · cases hio
    exact hdiscarded.trans (rejectWrite_sameAt _ job _ h)
  · split at hio
    · cases hio
      refine SameAt.trans ?_ (settle_sameAt _ job _ h)
      split
      · exact SameAt.refl s other
      · exact rememberDurable_sameAt s _ h
    · cases hio
      exact settle_sameAt s job _ h
  · cases hio
    exact settle_sameAt s job _ h
  · split at hio
    · cases hio
      exact hunlinked.trans (suspend_sameAt _ job _ h)
    · cases hio
  · split at hio
    · cases hio
    · split at hio
      · cases hio
        exact suspend_sameAt s job _ h
      · cases hio
        exact settle_sameAt s job _ h
  · cases hio
    exact (restoreDeleteState_sameAt s _ h).trans (settle_sameAt _ job _ h)
  · cases hio
    exact (certifyBarrier_sameAt s h).trans (settle_sameAt _ job _ h)
  · cases hio
    exact (restoreDeleteState_sameAt s _ h).trans (settle_sameAt _ job _ h)
  · cases hio
    exact (certifyBarrier_sameAt s h).trans (settle_sameAt _ job _ h)
  · cases hio
    exact huncertain.trans (settle_sameAt _ job _ h)

/-- A key without an operation between its mutation and its barrier. -/
structure AtRest (s : State) (k : StoreKey) : Prop where
  /-- Uncertainty discards durable knowledge. -/
  uncertain_durable : k ∈ s.uncertain → s.durable.get k = none
  /-- Durable knowledge is what the file holds, its last barrier settled. -/
  durable_disk : ∀ value, s.durable.get k = some value →
    s.disk k = some value ∧ s.barrier k ≠ .incomplete
  /-- Only an uncertain key can have an incomplete barrier. -/
  certain_barrier : k ∉ s.uncertain → s.barrier k ≠ .incomplete
  /-- Critical keys are never debounced. -/
  critical_pending : critical k = true → s.pendingWrites.get k = none
  /-- An entry's timer flushes the entry's key. -/
  timer_key : ∀ entry timer, s.pendingWrites.get k = some entry → entry.timer = some timer →
    timer.key = k

theorem AtRest.congr {s s' : State} {k : StoreKey} (hs : AtRest s k)
    (h : SameContent s s' k) : AtRest s' k where
  uncertain_durable hu := by
    have hd := hs.uncertain_durable (h.uncertain.mp hu)
    rcases h.durable with he | he
    · rw [he,hd]
    · exact he
  durable_disk value hv := by
    rw [h.disk,h.barrier]
    exact hs.durable_disk value (h.durable_some hv)
  certain_barrier hu := by
    rw [h.barrier]
    exact hs.certain_barrier fun hc => hu (h.uncertain.mpr hc)
  critical_pending hc := by
    rw [h.pending]
    exact hs.critical_pending hc
  timer_key entry timer he := hs.timer_key entry timer (h.pending ▸ he)

/-- A write in progress comes from a critical set without a pending entry,
or flushes the entry still pending with its timer cleared. -/
def WriteOk (s : State) (k : StoreKey) (job : Job) (write : Write) : Prop :=
  match write.entry with
  | none => job.op = .call (.set write.value) ∧ critical k = true ∧ s.pendingWrites.get k = none
  | some entry => (∃ scope, job.op = .flushOne scope) ∧ entry.value = write.value ∧
      entry.timer = none ∧ s.pendingWrites.get k = some entry ∧ critical k = false

theorem WriteOk.congr {s s' : State} {k : StoreKey} {job : Job} {write : Write}
    (hw : WriteOk s k job write) (h : SameContent s s' k) : WriteOk s' k job write := by
  unfold WriteOk at hw ⊢
  cases he : write.entry with
  | none =>
    rw [he] at hw
    exact ⟨hw.1,hw.2.1,h.pending.trans hw.2.2⟩
  | some entry =>
    rw [he] at hw
    exact ⟨hw.1,hw.2.1,hw.2.2.1,h.pending.trans hw.2.2.2.1,hw.2.2.2.2⟩

/-- A write in progress has no timer armed for its key. -/
theorem WriteOk.timer {s : State} {k : StoreKey} {job : Job} {write : Write}
    (hw : WriteOk s k job write) {entry : PendingEntry}
    (he : s.pendingWrites.get k = some entry) : entry.timer = none := by
  unfold WriteOk at hw
  split at hw
  · rw [hw.2.2] at he
    cases he
  · obtain ⟨_,_,ht,hp,_⟩ := hw
    rw [hp] at he
    cases he
    exact ht

/-- What a delete captured describes the key it has cleared. -/
structure CapturedOk (s : State) (k : StoreKey) (job : Job) (prev : Captured) : Prop where
  /-- The operation is a delete. -/
  op : job.op = .call .delete
  /-- The pending entry is removed. -/
  pending : s.pendingWrites.get k = none
  /-- Durable knowledge is removed. -/
  durable : s.durable.get k = none
  /-- Uncertainty is unchanged since. -/
  uncertain : prev.wasUncertain = true ↔ k ∈ s.uncertain
  /-- Captured durable bytes are what the file holds. -/
  prevDurable : ∀ value, prev.prevDurable = some value →
    k ∉ s.uncertain ∧ s.disk k = some value ∧ s.barrier k ≠ .incomplete
  /-- Critical keys are never debounced. -/
  prevPending : critical k = true → prev.prevPending = none
  /-- A captured timer belongs to the key. -/
  prevTimer : ∀ entry timer, prev.prevPending = some entry → entry.timer = some timer →
    timer.key = k

theorem CapturedOk.congr {s s' : State} {k : StoreKey} {job : Job} {prev : Captured}
    (hs : CapturedOk s k job prev) (h : SameContent s s' k) : CapturedOk s' k job prev where
  op := hs.op
  pending := h.pending.trans hs.pending
  durable := by
    rcases h.durable with he | he
    · exact he.trans hs.durable
    · exact he
  uncertain := hs.uncertain.trans h.uncertain.symm
  prevDurable value hv := by
    obtain ⟨hu,hd,hb⟩ := hs.prevDurable value hv
    exact ⟨fun hc => hu (h.uncertain.mp hc),h.disk.trans hd,by rw [h.barrier]; exact hb⟩
  prevPending := hs.prevPending
  prevTimer := hs.prevTimer

/-- What holds of a key while one of its operations is suspended. -/
def Suspended (s : State) (k : StoreKey) (job : Job) : Awaiting → Prop
  | .writeTmp write _ => AtRest s k ∧ WriteOk s k job write
  | .publishTmp write => AtRest s k ∧ WriteOk s k job write
  | .syncDir write => WriteOk s k job write ∧ s.disk k = some write.value ∧
      (k ∈ s.uncertain → s.durable.get k = none)
  | .unlinkTmp write => WriteOk s k job write ∧ (k ∈ s.uncertain → s.durable.get k = none)
  | .readFile keyUncertain => AtRest s k ∧ job.op = .call .get ∧
      s.pendingWrites.get k = none ∧ (keyUncertain = true ↔ k ∈ s.uncertain)
  | .unlink prev => AtRest s k ∧ CapturedOk s k job prev
  | .syncAbsent prev => AtRest s k ∧ CapturedOk s k job prev ∧ s.disk k = none ∧
      prev.wasUncertain = true
  | .syncUnlinked => job.op = .call .delete ∧ s.pendingWrites.get k = none ∧
      s.durable.get k = none ∧ s.disk k = none

theorem Suspended.congr {s s' : State} {k : StoreKey} {job : Job} {awaiting : Awaiting}
    (hs : Suspended s k job awaiting) (h : SameContent s s' k) : Suspended s' k job awaiting := by
  have hdurable : s.durable.get k = none → s'.durable.get k = none := by
    intro hn
    rcases h.durable with he | he
    · exact he.trans hn
    · exact he
  cases awaiting with
  | writeTmp write attempt => exact ⟨hs.1.congr h,hs.2.congr h⟩
  | publishTmp write => exact ⟨hs.1.congr h,hs.2.congr h⟩
  | syncDir write =>
    exact ⟨hs.1.congr h,h.disk.trans hs.2.1,
      fun hu => hdurable (hs.2.2 (h.uncertain.mp hu))⟩
  | unlinkTmp write => exact ⟨hs.1.congr h,fun hu => hdurable (hs.2 (h.uncertain.mp hu))⟩
  | readFile keyUncertain =>
    obtain ⟨hr,ho,hp,hu⟩ := hs
    exact ⟨hr.congr h,ho,h.pending.trans hp,hu.trans h.uncertain.symm⟩
  | unlink prev => exact ⟨hs.1.congr h,hs.2.congr h⟩
  | syncAbsent prev =>
    obtain ⟨hr,hc,hd,hw⟩ := hs
    exact ⟨hr.congr h,hc.congr h,h.disk.trans hd,hw⟩
  | syncUnlinked =>
    obtain ⟨ho,hp,hk,hd⟩ := hs
    exact ⟨ho,h.pending.trans hp,hdurable hk,h.disk.trans hd⟩

/-- The state of one key is consistent. -/
def KeyOk (s : State) (k : StoreKey) : Prop :=
  match (s.chains k).running with
  | none => AtRest s k
  | some (job,awaiting) => Suspended s k job awaiting

theorem KeyOk.congr {s s' : State} {k : StoreKey} (hs : KeyOk s k) (h : SameAt s s' k) : KeyOk s' k := by
  unfold KeyOk at hs ⊢
  rw [h.running]
  split at hs
  · exact hs.congr h.toSameContent
  · exact hs.congr h.toSameContent

/-- Settling an operation of a key at rest leaves it consistent. -/
theorem settle_keyOk {s : State} {k : StoreKey} (hs : AtRest s k) (job : Job)
    (outcome : Outcome) : KeyOk (settle s k job outcome) k := by
  have hrunning : ((settle s k job outcome).chains k).running = none := by simp [settle]
  unfold KeyOk
  rw [hrunning]
  exact hs.congr ⟨rfl,Iff.rfl,rfl,rfl,Or.inl rfl⟩

/-- Suspending an operation leaves the key consistent once its suspension
point's facts hold. -/
theorem suspend_keyOk {s : State} {k : StoreKey} {job : Job} {awaiting : Awaiting}
    (hs : Suspended s k job awaiting) : KeyOk (suspend s k job awaiting) k := by
  have hrunning : ((suspend s k job awaiting).chains k).running = some (job,awaiting) := by
    simp [suspend]
  unfold KeyOk
  rw [hrunning]
  exact hs.congr ⟨rfl,Iff.rfl,rfl,rfl,Or.inl rfl⟩

/-- Remembering what the file holds keeps a certain key at rest. -/
theorem AtRest.rememberDurable {s : State} {k : StoreKey} (hs : AtRest s k) {value : Bytes}
    (hu : k ∉ s.uncertain) (hd : s.disk k = some value) :
    AtRest (rememberDurable s k value) k where
  uncertain_durable hc := absurd hc hu
  durable_disk known hk := by
    rw [rememberDurable_self hk]
    exact ⟨hd,hs.certain_barrier hu⟩
  certain_barrier := hs.certain_barrier
  critical_pending := hs.critical_pending
  timer_key := hs.timer_key

/-- A set skips, debounces or suspends; its key stays consistent. -/
theorem doSetLocked_keyOk {s : State} {k : StoreKey} (hs : AtRest s k) {job : Job}
    {value : Bytes} (hop : job.op = .call (.set value)) : KeyOk (doSetLocked s k job value) k := by
  unfold doSetLocked
  dsimp only
  split
  · exact settle_keyOk hs job _
  · split
    · rename_i hc
      have hgone := InsertionMap.get_delete_self s.pendingWrites k
      refine suspend_keyOk ⟨⟨hs.uncertain_durable,hs.durable_disk,hs.certain_barrier,
        fun _ => hgone,?_⟩,hop,hc,hgone⟩
      intro entry timer he
      cases hgone.symm.trans he
    · rename_i hc
      have hput : ∀ entry : PendingEntry,
          ((s.pendingWrites.set k entry).get k) = some entry := fun entry =>
        InsertionMap.get_set_self _ _ _
      refine settle_keyOk ?_ job _
      refine ⟨hs.uncertain_durable,hs.durable_disk,hs.certain_barrier,
        fun h => absurd h hc,?_⟩
      intro entry timer he ht
      obtain rfl := Option.some.inj ((hput _).symm.trans he)
      cases ht
      rfl

/-- A read answers from memory or suspends; its key stays consistent. -/
theorem doGetLocked_keyOk {s : State} {k : StoreKey} (hs : AtRest s k) {job : Job}
    (hop : job.op = .call .get) : KeyOk (doGetLocked s k job) k := by
  unfold doGetLocked
  split
  · exact settle_keyOk hs job _
  · rename_i hp
    dsimp only
    split
    · exact settle_keyOk hs job _
    · refine suspend_keyOk ⟨⟨hs.uncertain_durable,hs.durable_disk,hs.certain_barrier,
        hs.critical_pending,hs.timer_key⟩,hop,hp,?_⟩
      exact decide_eq_true_iff

/-- A delete clears the key's memory and captures it. -/
theorem doDeleteOne_keyOk {s : State} {k : StoreKey} (hs : AtRest s k) {job : Job}
    (hop : job.op = .call .delete) : KeyOk (doDeleteOne s k job) k := by
  unfold doDeleteOne
  have hpending := InsertionMap.get_delete_self s.pendingWrites k
  have hdurable := InsertionMap.get_delete_self s.durable k
  refine suspend_keyOk ⟨⟨fun _ => hdurable,?_,hs.certain_barrier,fun _ => hpending,?_⟩,
    ⟨hop,hpending,hdurable,decide_eq_true_iff,?_,hs.critical_pending,hs.timer_key⟩⟩
  · intro value hv
    cases hdurable.symm.trans hv
  · intro entry timer he
    cases hpending.symm.trans he
  · intro value hv
    refine ⟨fun hu => ?_,hs.durable_disk value hv⟩
    rw [hs.uncertain_durable hu] at hv
    cases hv

/-- A flush of a key returns or suspends on the write of its entry. -/
theorem flushOne_keyOk {s : State} {k : StoreKey} (hs : AtRest s k) {job : Job}
    {scope : Option ScopeId} (hop : job.op = .flushOne scope) : KeyOk (flushOne s k job scope) k := by
  unfold flushOne
  split
  · exact settle_keyOk hs job _
  · rename_i pending hp
    split
    · exact settle_keyOk hs job _
    · have hput := InsertionMap.get_set_self s.pendingWrites k {pending with timer := none}
      have hcritical : critical k = false := by
        cases hc : critical k with
        | false => rfl
        | true =>
          rw [hs.critical_pending hc] at hp
          cases hp
      refine suspend_keyOk ⟨⟨hs.uncertain_durable,hs.durable_disk,hs.certain_barrier,?_,?_⟩,
        ⟨scope,hop⟩,rfl,rfl,hput,hcritical⟩
      · intro hc
        rw [hcritical] at hc
        cases hc
      · intro entry timer he ht
        obtain rfl := Option.some.inj (hput.symm.trans he)
        cases ht

/-- Starting an operation keeps its key consistent. -/
theorem startJob_keyOk {s : State} {k : StoreKey} (hs : AtRest s k) (job : Job) : KeyOk (startJob s k job) k := by
  unfold startJob
  split
  · rename_i value hop
    exact doSetLocked_keyOk hs hop
  · rename_i hop
    exact doGetLocked_keyOk hs hop
  · rename_i hop
    exact doDeleteOne_keyOk hs hop
  · rename_i scope hop
    exact flushOne_keyOk hs hop

/-- A certified write leaves its key at rest. -/
theorem certifyWrite_keyOk {s : State} {k : StoreKey} {job : Job} {write : Write}
    (hw : WriteOk s k job write) (hd : s.disk k = some write.value) : KeyOk (certifyWrite s k job write) k := by
  have hcertain : k ∉ s.uncertain.erase k := Finset.notMem_erase k s.uncertain
  have hbarrier : update s.barrier k FileBarrier.complete k ≠ .incomplete := by simp
  have hdurable : ∀ value, (rememberDurable (certifyBarrier s k) k write.value).durable.get k =
      some value → s.disk k = some value ∧
        update s.barrier k FileBarrier.complete k ≠ .incomplete := by
    intro value hv
    rw [rememberDurable_self hv]
    exact ⟨hd,hbarrier⟩
  unfold certifyWrite
  unfold WriteOk at hw
  dsimp only
  cases he : write.entry with
  | none =>
    rw [he] at hw
    refine settle_keyOk ⟨fun hu => absurd hu hcertain,hdurable,fun _ => hbarrier,
      fun _ => hw.2.2,?_⟩ job _
    intro entry timer hp
    cases hw.2.2.symm.trans hp
  | some entry =>
    rw [he] at hw
    obtain ⟨_,_,_,hp,_⟩ := hw
    have hsame : (rememberDurable (certifyBarrier s k) k write.value).pendingWrites.get k =
        some entry := hp
    have hgone := InsertionMap.get_delete_self s.pendingWrites k
    dsimp only
    rw [hsame]
    dsimp only
    rw [if_pos rfl]
    refine settle_keyOk ?_ job _
    refine ⟨fun hu => absurd hu hcertain,hdurable,fun _ => hbarrier,fun _ => hgone,?_⟩
    intro other timer hp'
    cases hgone.symm.trans hp'

/-- A rejected write leaves a key at rest once it is at rest. -/
theorem rejectWrite_keyOk {s : State} {k : StoreKey} (hs : AtRest s k) (job : Job)
    (write : Write) : KeyOk (rejectWrite s k job write) k := by
  unfold rejectWrite
  split
  · exact settle_keyOk (hs.congr (addFailed_sameAt s _ _).toSameContent) job _
  · exact settle_keyOk hs job _

/-- Restoring what a delete captured brings the key back to rest. -/
theorem restoreDeleteState_atRest {s : State} {k : StoreKey} {job : Job} {prev : Captured}
    (hs : AtRest s k) (hc : CapturedOk s k job prev) : AtRest (restoreDeleteState s k prev) k := by
  have harmed : ∀ start entry, prev.prevPending = some entry → AtRest start k → AtRest (armTimer start k entry) k := by
    intro start entry hp hstart
    refine ⟨hstart.uncertain_durable,hstart.durable_disk,hstart.certain_barrier,?_,?_⟩
    · intro hcritical
      rw [hc.prevPending hcritical] at hp
      cases hp
    · intro other timer he ht
      simp only [armTimer,InsertionMap.get_set_self,Option.some.injEq] at he
      subst he
      cases ht
      rfl
  unfold restoreDeleteState
  dsimp only
  cases hd : prev.prevDurable with
  | none => cases hp : prev.prevPending with
    | none => exact hs
    | some entry => exact harmed s entry hp hs
  | some value =>
    obtain ⟨hu,hf,_⟩ := hc.prevDurable value hd
    have hremembered := hs.rememberDurable hu hf
    cases hp : prev.prevPending with
    | none => exact hremembered
    | some entry => exact harmed _ entry hp hremembered

/-- Continuing an operation keeps its key consistent. -/
theorem ioJob_keyOk {s s' : State} {k : StoreKey} {job : Job} {awaiting : Awaiting}
    {outcome : IoOutcome} (hs : Suspended s k job awaiting)
    (hio : ioJob s k job awaiting outcome = some s') : KeyOk s' k := by
  unfold ioJob at hio
  split at hio
  · cases hio
    exact suspend_keyOk hs
  · split at hio
    · cases hio
      exact suspend_keyOk hs
    · cases hio
      exact rejectWrite_keyOk hs.1 job _
  · cases hio
    exact rejectWrite_keyOk hs.1 job _
  · cases hio
    exact suspend_keyOk ⟨hs.2,by simp [renameEffect],hs.1.uncertain_durable⟩
  · cases hio
    exact suspend_keyOk ⟨hs.2,hs.1.uncertain_durable⟩
  · cases hio
    exact suspend_keyOk ⟨hs.2,hs.1.uncertain_durable⟩
  · cases hio
    exact certifyWrite_keyOk hs.1 hs.2.1
  · cases hio
    exact suspend_keyOk ⟨hs.1,hs.2.2⟩
  · cases hio
    have hgone := InsertionMap.get_delete_self s.durable k
    refine rejectWrite_keyOk ?_ job _
    refine ⟨fun _ => hgone,?_,?_,?_,?_⟩
    · intro value hv
      cases hgone.symm.trans hv
    · intro hu
      exact absurd (Finset.mem_insert_self k s.uncertain) hu
    · intro hcritical
      have hw := hs.1
      unfold WriteOk at hw
      split at hw
      · exact hw.2.2
      · rw [hw.2.2.2.2] at hcritical
        cases hcritical
    · intro entry timer he ht
      rw [hs.1.timer he] at ht
      cases ht
  · obtain ⟨hrest,_,_,hu⟩ := hs
    split at hio
    · rename_i data hd
      cases hio
      split
      · exact settle_keyOk hrest job _
      · rename_i hcertain
        exact settle_keyOk (hrest.rememberDurable (fun hc => hcertain (hu.mpr hc)) hd) job _
    · cases hio
      exact settle_keyOk hrest job _
  · cases hio
    exact settle_keyOk hs.1 job _
  · obtain ⟨hrest,hcaptured⟩ := hs
    split at hio
    · cases hio
      exact suspend_keyOk ⟨hcaptured.op,hcaptured.pending,hcaptured.durable,by simp⟩
    · cases hio
  · obtain ⟨hrest,hcaptured⟩ := hs
    split at hio
    · cases hio
    · rename_i habsent
      split at hio
      · rename_i hw
        cases hio
        exact suspend_keyOk ⟨hrest,hcaptured,Option.not_isSome_iff_eq_none.mp habsent,hw⟩
      · cases hio
        exact settle_keyOk hrest job _
  · cases hio
    exact settle_keyOk (restoreDeleteState_atRest hs.1 hs.2) job _
  · obtain ⟨hrest,hcaptured,_,_⟩ := hs
    cases hio
    refine settle_keyOk ?_ job _
    refine ⟨?_,?_,?_,hrest.critical_pending,hrest.timer_key⟩
    · intro hu
      exact absurd hu (Finset.notMem_erase k s.uncertain)
    · intro value hv
      cases hcaptured.durable.symm.trans hv
    · simp [certifyBarrier]
  · cases hio
    exact settle_keyOk (restoreDeleteState_atRest hs.1 hs.2.1) job _
  · obtain ⟨_,hp,hdurable,_⟩ := hs
    cases hio
    refine settle_keyOk ?_ job _
    refine ⟨?_,?_,?_,fun _ => hp,?_⟩
    · intro hu
      exact absurd hu (Finset.notMem_erase k s.uncertain)
    · intro value hv
      cases hdurable.symm.trans hv
    · simp [certifyBarrier]
    · intro entry timer he
      cases hp.symm.trans he
  · obtain ⟨_,hp,hdurable,_⟩ := hs
    cases hio
    refine settle_keyOk ?_ job _
    refine ⟨fun _ => hdurable,?_,?_,fun _ => hp,?_⟩
    · intro value hv
      cases hdurable.symm.trans hv
    · intro hu
      exact absurd (Finset.mem_insert_self k s.uncertain) hu
    · intro entry timer he
      cases hp.symm.trans he

end Baileyrs.BridgeStore
