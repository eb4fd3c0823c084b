import Baileyrs.BridgeStoreQuiesce

/-!
# Certificates of the bridge store

A set may skip its write when the same bytes are certified or queued with a
timer. The certificate is what the file holds, unless a write of that key is
between its rename and the end of its barrier. The timer of a queued write
is armed, or its flush is the very next operation of the key.
-/

namespace Baileyrs.BridgeStore

open LabelledRuns Function

/-- A timer that fired has queued its flush at the front of an idle chain. -/
def FlushDue (s : State) (k : StoreKey) : Prop :=
  (s.chains k).running = none ∧ ∃ id rest, (s.chains k).waiting = ⟨id,.flushOne none⟩::rest

/-- Every timer of the key's pending entry is armed. -/
def TimerLive (s : State) (k : StoreKey) : Prop :=
  ∀ entry timer, s.pendingWrites.get k = some entry → entry.timer = some timer → timer ∈ s.timers

/-- The key's debounced write will be flushed without another call. -/
def TimerOk (s : State) (k : StoreKey) : Prop :=
  ∀ entry timer, s.pendingWrites.get k = some entry → entry.timer = some timer →
    timer ∈ s.timers ∨ FlushDue s k

/-- A pending entry with a timer belongs to an idle key. -/
theorem KeyOk.timer_idle {s : State} {k : StoreKey} (hk : KeyOk s k) {entry : PendingEntry}
    {timer : TimerHandle} (he : s.pendingWrites.get k = some entry)
    (ht : entry.timer = some timer) : (s.chains k).running = none ∧ timer.key = k := by
  have hwrite : ∀ job write, WriteOk s k job write → False := by
    intro job write hw
    rw [hw.timer he] at ht
    cases ht
  have habsent : s.pendingWrites.get k = none → False := by
    intro hn
    rw [hn] at he
    cases he
  unfold KeyOk at hk
  split at hk
  · rename_i hr
    exact ⟨hr,hk.timer_key entry timer he ht⟩
  · rename_i job awaiting hr
    cases awaiting with
    | writeTmp write attempt => exact (hwrite job write hk.2).elim
    | publishTmp write => exact (hwrite job write hk.2).elim
    | syncDir write => exact (hwrite job write hk.1).elim
    | unlinkTmp write => exact (hwrite job write hk.1).elim
    | readFile keyUncertain => exact (habsent hk.2.2.1).elim
    | unlink prev => exact (habsent hk.2.pending).elim
    | syncAbsent prev => exact (habsent hk.2.1.pending).elim
    | syncUnlinked => exact (habsent hk.2.1).elim

/-- Disarming one handle keeps every other timer. -/
theorem mem_clearTimeout {s : State} {timer : Option TimerHandle} {live : TimerHandle}
    (h : live ∈ s.timers) (hne : timer ≠ some live) : live ∈ (clearTimeout s timer).timers := by
  unfold clearTimeout
  exact List.mem_filter.mpr ⟨h,decide_eq_true fun he => hne he.symm⟩

/-- The entry just armed is live. -/
theorem armTimer_live (s : State) (k : StoreKey) (entry : PendingEntry) : TimerLive (armTimer s k entry) k := by
  intro other timer he ht
  simp only [armTimer,InsertionMap.get_set_self,Option.some.injEq] at he
  subst he
  cases ht
  exact List.mem_append_right _ List.mem_cons_self

theorem restoreDeleteState_live {s : State} {k : StoreKey} (hs : s.pendingWrites.get k = none)
    (prev : Captured) : TimerLive (restoreDeleteState s k prev) k := by
  unfold restoreDeleteState
  dsimp only
  cases prev.prevPending with
  | some entry => exact armTimer_live _ k entry
  | none =>
    intro entry timer he
    have hnone : s.pendingWrites.get k = some entry := by
      cases hd : prev.prevDurable with
      | none =>
        rw [hd] at he
        exact he
      | some value =>
        rw [hd] at he
        exact he
    rw [hs] at hnone
    cases hnone

/-- Starting an operation leaves its key with an armed timer, if any. -/
theorem startJob_live {s : State} {k : StoreKey} {job : Job}
    (hs : job.op ≠ .flushOne none → TimerLive s k) : TimerLive (startJob s k job) k := by
  unfold startJob
  split
  · rename_i value hop
    have hlive := hs (by rw [hop]; simp)
    unfold doSetLocked
    dsimp only
    split
    · exact hlive
    · split
      · intro entry timer he
        cases (InsertionMap.get_delete_self s.pendingWrites k).symm.trans he
      · exact armTimer_live _ k _
  · rename_i hop
    have hlive := hs (by rw [hop]; simp)
    unfold doGetLocked
    split
    · exact hlive
    · dsimp only
      split
      · exact hlive
      · exact hlive
  · unfold doDeleteOne
    intro entry timer he
    cases (InsertionMap.get_delete_self s.pendingWrites k).symm.trans he
  · rename_i scope hop
    unfold flushOne
    split
    · rename_i hp
      intro entry timer he
      cases hp.symm.trans he
    · rename_i pending hp
      split
      · rename_i hfailed
        cases scope with
        | none => cases hfailed
        | some id => exact hs (by rw [hop]; simp)
      · intro entry timer he ht
        have hput := InsertionMap.get_set_self s.pendingWrites k {pending with timer := none}
        obtain rfl := Option.some.inj (hput.symm.trans he)
        cases ht

/-- An operation between its start and its end has no timer of its key. -/
theorem Suspended.untimed {s : State} {k : StoreKey} {job : Job} {awaiting : Awaiting}
    (hs : Suspended s k job awaiting) : ∀ entry, s.pendingWrites.get k = some entry → entry.timer = none := by
  have habsent : s.pendingWrites.get k = none → ∀ entry, s.pendingWrites.get k = some entry →
      entry.timer = none := by
    intro hn entry he
    rw [hn] at he
    cases he
  cases awaiting with
  | writeTmp write attempt => exact fun entry he => hs.2.timer he
  | publishTmp write => exact fun entry he => hs.2.timer he
  | syncDir write => exact fun entry he => hs.1.timer he
  | unlinkTmp write => exact fun entry he => hs.1.timer he
  | readFile keyUncertain => exact habsent hs.2.2.1
  | unlink prev => exact habsent hs.2.pending
  | syncAbsent prev => exact habsent hs.2.1.pending
  | syncUnlinked => exact habsent hs.2.1

/-- An I/O end leaves pending what was pending, drops it, or restores it
with an armed timer. -/
theorem ioJob_live {s s' : State} {k : StoreKey} {job : Job} {awaiting : Awaiting}
    {outcome : IoOutcome} (hs : Suspended s k job awaiting)
    (hio : ioJob s k job awaiting outcome = some s') : TimerLive s' k := by
  have huntimed := hs.untimed
  have hsame : ∀ next : State, (∀ entry, next.pendingWrites.get k = some entry →
      s.pendingWrites.get k = some entry) → TimerLive next k := by
    intro next hn entry timer he ht
    rw [huntimed entry (hn entry he)] at ht
    cases ht
  have hreject : ∀ (mid : State) write, mid.pendingWrites = s.pendingWrites →
      TimerLive (rejectWrite mid k job write) k := by
    intro mid write hm
    refine hsame _ fun entry he => ?_
    rw [← hm]
    unfold rejectWrite at he
    split at he
    · rename_i scope _ _ _
      cases scope <;> exact he
    · exact he
  unfold ioJob at hio
  split at hio
  · cases hio
    exact hsame _ fun _ he => he
  · split at hio
    · cases hio
      exact hsame _ fun _ he => he
    · cases hio
      exact hreject s _ rfl
  · cases hio
    exact hreject s _ rfl
  · cases hio
    exact hsame _ fun _ he => he
  · cases hio
    exact hsame _ fun _ he => he
  · cases hio
    exact hsame _ fun _ he => he
  · rename_i write
    cases hio
    refine hsame _ fun entry he => ?_
    unfold certifyWrite at he
    dsimp only at he
    split at he
    · exact he
    · split at he
      · split at he
        · cases (InsertionMap.get_delete_self s.pendingWrites k).symm.trans he
        · exact he
      · exact he
  · cases hio
    exact hsame _ fun _ he => he
  · cases hio
    exact hreject _ _ rfl
  · split at hio
    · cases hio
      split
      · exact hsame _ fun _ he => he
      · exact hsame _ fun _ he => he
    · cases hio
      exact hsame _ fun _ he => he
  · cases hio
    exact hsame _ fun _ he => he
  · split at hio
    · cases hio
      exact hsame _ fun _ he => he
    · cases hio
  · split at hio
    · cases hio
    · split at hio
      · cases hio
        exact hsame _ fun _ he => he
      · cases hio
        exact hsame _ fun _ he => he
  · cases hio
    exact restoreDeleteState_live hs.2.pending _
  · cases hio
    exact hsame _ fun _ he => he
  · cases hio
    exact restoreDeleteState_live hs.2.1.pending _
  · cases hio
    exact hsame _ fun _ he => he
  · cases hio
    exact hsame _ fun _ he => he

/-- Timers of other keys stay armed. -/
def TimersKept (s s' : State) (k : StoreKey) : Prop :=
  ∀ timer ∈ s.timers, timer.key ≠ k → timer ∈ s'.timers

theorem TimersKept.trans {s mid last : State} {k : StoreKey} (h₁ : TimersKept s mid k)
    (h₂ : TimersKept mid last k) : TimersKept s last k :=
  fun timer ht hk => h₂ timer (h₁ timer ht hk) hk

/-- Disarming a handle of a key keeps the timers of other keys. -/
theorem clearTimeout_kept {s : State} {k : StoreKey} {timer : Option TimerHandle}
    (h : ∀ handle, timer = some handle → handle.key = k) : TimersKept s (clearTimeout s timer) k := by
  intro live hl hk
  refine mem_clearTimeout hl ?_
  intro he
  exact hk (h live he)

theorem armTimer_kept {s : State} {k : StoreKey} {entry : PendingEntry}
    (h : ∀ handle, entry.timer = some handle → handle.key = k) : TimersKept s (armTimer s k entry) k := by
  intro live hl hk
  exact List.mem_append_left _ (clearTimeout_kept h live hl hk)

theorem restoreDeleteState_kept {s : State} {k : StoreKey} {prev : Captured}
    (h : ∀ entry timer, prev.prevPending = some entry → entry.timer = some timer →
      timer.key = k) : TimersKept s (restoreDeleteState s k prev) k := by
  unfold restoreDeleteState
  dsimp only
  cases hd : prev.prevDurable with
  | none =>
    cases hp : prev.prevPending with
    | none => exact fun _ ht _ => ht
    | some entry => exact armTimer_kept fun handle ht => h entry handle hp ht
  | some value =>
    have hremembered : TimersKept s (rememberDurable s k value) k := fun _ ht _ => ht
    cases hp : prev.prevPending with
    | none => exact hremembered
    | some entry => exact hremembered.trans (armTimer_kept fun handle ht => h entry handle hp ht)

/-- Starting an operation keeps the timers of other keys. -/
theorem startJob_kept {s : State} {k : StoreKey} (hs : AtRest s k) (job : Job) : TimersKept s (startJob s k job) k := by
  have hbound : ∀ handle, (s.pendingWrites.get k).bind PendingEntry.timer = some handle →
      handle.key = k := by
    intro handle hb
    obtain ⟨entry,he,ht⟩ := Option.bind_eq_some_iff.mp hb
    exact hs.timer_key entry handle he ht
  unfold startJob
  split
  · unfold doSetLocked
    dsimp only
    split
    · exact fun _ ht _ => ht
    · split
      · exact clearTimeout_kept hbound
      · have hcleared : TimersKept s {clearTimeout s ((s.pendingWrites.get k).bind
            PendingEntry.timer) with fresh := s.fresh+1} k := clearTimeout_kept hbound
        refine hcleared.trans (armTimer_kept ?_)
        intro handle ht
        cases ht
  · unfold doGetLocked
    split
    · exact fun _ ht _ => ht
    · dsimp only
      split
      · exact fun _ ht _ => ht
      · exact fun _ ht _ => ht
  · exact clearTimeout_kept hbound
  · unfold flushOne
    split
    · exact fun _ ht _ => ht
    · rename_i pending hp
      split
      · exact fun _ ht _ => ht
      · exact clearTimeout_kept fun handle ht => hs.timer_key pending handle hp ht

/-- Continuing an operation keeps the timers of other keys. -/
theorem ioJob_kept {s s' : State} {k : StoreKey} {job : Job} {awaiting : Awaiting}
    {outcome : IoOutcome} (hs : Suspended s k job awaiting)
    (hio : ioJob s k job awaiting outcome = some s') : TimersKept s s' k := by
  have hsame : ∀ next : State, next.timers = s.timers → TimersKept s next k := by
    intro next hn timer ht _
    rw [hn]
    exact ht
  have hreject : ∀ (mid : State) write, mid.timers = s.timers →
      TimersKept s (rejectWrite mid k job write) k := by
    intro mid write hm
    refine hsame _ ?_
    unfold rejectWrite
    split
    · rename_i scope _ _ _
      cases scope <;> exact hm
    · exact hm
  unfold ioJob at hio
  split at hio
  · cases hio
    exact hsame _ rfl
  · split at hio
    · cases hio
      exact hsame _ rfl
    · cases hio
      exact hreject s _ rfl
  · cases hio
    exact hreject s _ rfl
  · cases hio
    exact hsame _ rfl
  · cases hio
    exact hsame _ rfl
  · cases hio
    exact hsame _ rfl
  · cases hio
    refine hsame _ ?_
    unfold certifyWrite
    dsimp only
    split
    · rfl
    · split
      · split <;> rfl
      · rfl
  · cases hio
    exact hsame _ rfl
  · cases hio
    exact hreject _ _ rfl
  · split at hio
    · cases hio
      split <;> exact hsame _ rfl
    · cases hio
      exact hsame _ rfl
  · cases hio
    exact hsame _ rfl
  · split at hio
    · cases hio
      exact hsame _ rfl
    · cases hio
  · split at hio
    · cases hio
    · split at hio
      · cases hio
        exact hsame _ rfl
      · cases hio
        exact hsame _ rfl
  · cases hio
    exact restoreDeleteState_kept hs.2.prevTimer
  · cases hio
    exact hsame _ rfl
  · cases hio
    exact restoreDeleteState_kept hs.2.1.prevTimer
  · cases hio
    exact hsame _ rfl
  · cases hio
    exact hsame _ rfl

/-- A due flush stays due while its chain is only appended to. -/
theorem FlushDue.extend {s s' : State} {k : StoreKey} (hs : FlushDue s k)
    (hrunning : (s'.chains k).running = (s.chains k).running)
    (hwaiting : ∃ extra, (s'.chains k).waiting = (s.chains k).waiting++extra) : FlushDue s' k := by
  obtain ⟨hr,id,rest,hw⟩ := hs
  obtain ⟨extra,he⟩ := hwaiting
  refine ⟨hrunning.trans hr,id,rest++extra,?_⟩
  rw [he,hw,List.cons_append]

/-- Steps that keep the armed timers of the key keep its entry timed. -/
theorem TimerOk.extend {s s' : State} {k : StoreKey} (hs : TimerOk s k) (hk : KeyOk s k)
    (hpending : s'.pendingWrites.get k = s.pendingWrites.get k)
    (htimers : ∀ timer ∈ s.timers, timer.key = k → timer ∈ s'.timers)
    (hdue : FlushDue s k → FlushDue s' k) : TimerOk s' k := by
  intro entry timer he ht
  rw [hpending] at he
  rcases hs entry timer he ht with h | h
  · exact Or.inl (htimers timer h (hk.timer_idle he ht).2)
  · exact Or.inr (hdue h)

theorem FlushFrame.timerOk {s s' : State} (h : FlushFrame s s') {k : StoreKey} (hk : KeyOk s k)
    (hs : TimerOk s k) : TimerOk s' k := by
  refine hs.extend hk (h.content k).pending ?_ ?_
  · intro timer ht _
    rw [h.timers]
    exact ht
  · exact fun hdue => hdue.extend (h.content k).running (h.waiting k)

theorem withKeyLocks_waiting (s : State) (calls : List (StoreKey × KeyCall)) (k : StoreKey) :
    (withKeyLocks s calls).timers = s.timers ∧
      ∃ extra, ((withKeyLocks s calls).chains k).waiting = (s.chains k).waiting++extra := by
  induction calls generalizing s with
  | nil => exact ⟨rfl,[],(List.append_nil _).symm⟩
  | cons pair rest ih =>
    obtain ⟨ht,extra,hw⟩ := ih (withKeyLock s pair.1 pair.2)
    obtain ⟨first,hf⟩ := enqueue_waiting s pair.1 k (.call pair.2)
    refine ⟨ht,first++extra,?_⟩
    rw [← List.append_assoc,← hf]
    exact hw

/-- Running another key's chain leaves the key's due flush due. -/
theorem Progress.flushDue {s s' : State} {k other : StoreKey} {job : Job} {rest : List Job}
    (hp : Progress s s' other job rest) (hne : k ≠ other)
    (hrunning : (s'.chains k).running = (s.chains k).running) (hdue : FlushDue s k) : FlushDue s' k := by
  have hjobs := hp.others k hne
  unfold jobs at hjobs
  rw [hrunning] at hjobs
  exact hdue.extend hrunning ⟨[],by rw [List.append_cancel_left hjobs,List.append_nil]⟩

/-- A timer that fires queues the flush at the front of its idle chain. -/
theorem fire_timerOk {s s' : State} {timer : TimerHandle} {k : StoreKey} (hk : KeyOk s k)
    (hs : TimerOk s k) (h : step s (.fire timer) = some s') : TimerOk s' k := by
  obtain ⟨_,hguard,rfl⟩ := step_fire h
  intro entry armed he ht
  obtain ⟨hidle,hkey⟩ := hk.timer_idle he ht
  rcases hs entry armed he ht with hlive | hdue
  · by_cases hfired : armed = timer
    · subst hfired
      subst hkey
      have hempty := hguard hidle
      refine Or.inr ⟨?_,s.fresh,[],?_⟩
      · simpa [enqueue,clearTimeout] using hidle
      · simp [enqueue,clearTimeout,hempty]
    · refine Or.inl (mem_clearTimeout hlive ?_)
      intro heq
      exact hfired (Option.some.inj heq).symm
  · refine Or.inr (hdue.extend ?_ ?_)
    · exact (enqueue_sameAt (clearTimeout s (some timer)) timer.key (.flushOne none)).running
    · exact enqueue_waiting (clearTimeout s (some timer)) timer.key k (.flushOne none)

/-- Every step keeps the timers of pending entries live or due. -/
theorem step_timerOk {s s' : State} {a : Action} (hk : ∀ k, KeyOk s k) (hs : ∀ k, TimerOk s k)
    (h : step s a = some s') (k : StoreKey) : TimerOk s' k := by
  cases a with
  | invoke calls =>
    cases h
    obtain ⟨htimers,hwaiting⟩ := withKeyLocks_waiting s calls k
    have hsame := withKeyLocks_sameAt s calls k
    refine (hs k).extend (hk k) hsame.pending ?_ fun hdue => hdue.extend hsame.running hwaiting
    intro timer ht _
    rw [htimers]
    exact ht
  | start other =>
    obtain ⟨front,tail,hjobs,hp⟩ := step_start_progress h
    by_cases hne : k = other
    · subst hne
      obtain ⟨job,rest,hc,rfl⟩ := step_start h
      have hlive : job.op ≠ .flushOne none →
          TimerLive {s with chains := update s.chains k ⟨none,rest⟩} k := by
        intro hop entry timer he ht
        rcases hs k entry timer he ht with hlive | ⟨_,id,due,hw⟩
        · exact hlive
        · rw [hc] at hw
          have hjob := (List.cons.inj hw).1
          exact absurd (congrArg Job.op hjob) hop
      exact fun entry timer he ht => Or.inl (startJob_live hlive entry timer he ht)
    · have hquiet : ¬Advances (.start other) k := by
        rintro (ha | ⟨_,ha⟩)
        · exact hne (Action.start.inj ha).symm
        · cases ha
      have hsame := step_sameAt h hquiet
      refine (hs k).extend (hk k) hsame.pending ?_ (hp.flushDue hne hsame.running)
      obtain ⟨job,rest,hc,rfl⟩ := step_start h
      intro timer ht hkey
      exact startJob_kept ((hk other).dequeued hc) job timer ht (hkey ▸ hne)
  | io other outcome =>
    obtain ⟨front,tail,hjobs,hp⟩ := step_io_progress h
    obtain ⟨job,awaiting,hr,hio⟩ := step_io h
    have hsuspended := hk other
    unfold KeyOk at hsuspended
    rw [hr] at hsuspended
    by_cases hne : k = other
    · subst hne
      exact fun entry timer he ht => Or.inl (ioJob_live hsuspended hio entry timer he ht)
    · have hsame := ioJob_sameAt hio (Ne.symm hne)
      refine (hs k).extend (hk k) hsame.pending ?_ (hp.flushDue hne hsame.running)
      intro timer ht hkey
      exact ioJob_kept hsuspended hio timer ht (hkey ▸ hne)
  | fire timer => exact fire_timerOk (hk k) (hs k) h
  | flush =>
    cases h
    exact (flushAll_frame s _).timerOk (hk k) (hs k)
  | drain id =>
    cases h
    exact (flushAll_frame s _).timerOk (hk k) (hs k)
  | resume f =>
    obtain ⟨call,_,hr⟩ := step_resume h
    exact (resumeFlush_frame hr).timerOk (hk k) (hs k)

theorem reachable_timerOk {s : State} (hs : ReachableState s) (k : StoreKey) : TimerOk s k := by
  have hall : ∀ k, TimerOk s k ∧ KeyOk s k := by
    refine hs.invariant (P := fun s => ∀ k, TimerOk s k ∧ KeyOk s k) ?_ ?_
    · rintro s ⟨disk,rfl⟩ k
      refine ⟨?_,opened_keyOk disk k⟩
      intro entry timer he
      cases he
    · intro s a next hn h k
      exact ⟨step_timerOk (fun k => (hn k).2) (fun k => (hn k).1) h k,
        step_keyOk (fun k => (hn k).2) h k⟩
  exact (hall k).1

/-- A write of the key is between its rename and the end of its barrier. -/
def BarrierRunning (s : State) (k : StoreKey) : Prop :=
  ∃ job write, (s.chains k).running = some (job,.syncDir write) ∨
    (s.chains k).running = some (job,.unlinkTmp write)

/-- The bytes are known to be durable: the file's last mutation completed
the full barrier for them, or they were read back from an untouched file. -/
structure Certified (s : State) (k : StoreKey) (value : Bytes) : Prop where
  /-- Known durable bytes. -/
  durable : s.durable.get k = some value
  /-- The file holds them. -/
  disk : s.disk k = some value
  /-- No mutation of the file lacks its barrier. -/
  barrier : s.barrier k = .complete ∨ s.barrier k = .asOpened
  /-- The key is not uncertain. -/
  certain : k ∉ s.uncertain

/-- The bytes are pending with an armed timer. -/
def QueuedLive (s : State) (k : StoreKey) (value : Bytes) : Prop :=
  ∃ entry timer, s.pendingWrites.get k = some entry ∧ entry.value = value ∧
    entry.timer = some timer ∧ timer ∈ s.timers

/-- Durable bytes of a key at rest are certified. -/
theorem AtRest.certified {s : State} {k : StoreKey} (hs : AtRest s k) {value : Bytes}
    (hd : s.durable.get k = some value) : Certified s k value := by
  obtain ⟨hdisk,hbarrier⟩ := hs.durable_disk value hd
  refine ⟨hd,hdisk,?_,?_⟩
  · cases hb : s.barrier k with
    | asOpened => exact Or.inr rfl
    | incomplete => exact absurd hb hbarrier
    | complete => exact Or.inl rfl
  · intro hu
    rw [hs.uncertain_durable hu] at hd
    cases hd

/-- Uncertainty discards durable knowledge, and durable knowledge is
certified unless the key's own barrier is running. -/
theorem KeyOk.certificates {s : State} {k : StoreKey} (hk : KeyOk s k) : (k ∈ s.uncertain → s.durable.get k = none) ∧
      ∀ value, s.durable.get k = some value → Certified s k value ∨ BarrierRunning s k := by
  have hrest : AtRest s k → (k ∈ s.uncertain → s.durable.get k = none) ∧
      ∀ value, s.durable.get k = some value → Certified s k value ∨ BarrierRunning s k :=
    fun hs => ⟨hs.uncertain_durable,fun value hd => Or.inl (hs.certified hd)⟩
  unfold KeyOk at hk
  split at hk
  · exact hrest hk
  · rename_i job awaiting hr
    cases awaiting with
    | writeTmp write attempt => exact hrest hk.1
    | publishTmp write => exact hrest hk.1
    | syncDir write => exact ⟨hk.2.2,fun _ _ => Or.inr ⟨job,write,Or.inl hr⟩⟩
    | unlinkTmp write => exact ⟨hk.2,fun _ _ => Or.inr ⟨job,write,Or.inr hr⟩⟩
    | readFile keyUncertain => exact hrest hk.1
    | unlink prev => exact hrest hk.1
    | syncAbsent prev => exact hrest hk.1
    | syncUnlinked =>
      refine ⟨fun _ => hk.2.2.1,fun value hd => ?_⟩
      rw [hk.2.2.1] at hd
      cases hd

/-- Eviction never drops the bytes just remembered. -/
theorem rememberDurable_get (s : State) (k : StoreKey) (value : Bytes) :
    (rememberDurable s k value).durable.get k = some value := by
  have hentries : ((s.durable.delete k).set k value).entries =
      (s.durable.delete k).entries++[(k,value)] :=
    InsertionMap.entries_set_of_absent value (InsertionMap.get_delete_self _ _)
  unfold rememberDurable
  dsimp only
  split
  · rename_i hfull
    rw [InsertionMap.get_eq_some_iff]
    unfold InsertionMap.size at hfull
    change (k,value) ∈ ((s.durable.delete k).set k value).entries.tail
    rw [hentries] at hfull ⊢
    cases hold : (s.durable.delete k).entries with
    | nil =>
      rw [hold] at hfull
      exact absurd hfull (by simp [maxCacheEntries])
    | cons first rest => exact List.mem_append_right _ List.mem_cons_self
  · exact InsertionMap.get_set_self _ _ _

/-- A set that resolves as it starts left its bytes certified or queued. -/
theorem startJob_set_safe {s : State} {k : StoreKey} {job : Job} {value : Bytes}
    (hs : AtRest s k) (hlive : TimerLive s k) (hop : job.op = .call (.set value))
    (hunsettled : s.results job.id = none) {answer : Option Bytes}
    (hresolved : (startJob s k job).results job.id = some (.resolved answer)) :
    Certified (startJob s k job) k value ∨ QueuedLive (startJob s k job) k value := by
  unfold startJob at hresolved ⊢
  rw [hop] at hresolved ⊢
  dsimp only at hresolved ⊢
  unfold doSetLocked at hresolved ⊢
  dsimp only at hresolved ⊢
  split
  · rename_i hskip
    unfold skipsWrite at hskip
    cases hp : s.pendingWrites.get k with
    | some pending =>
      simp only [hp,Bool.and_eq_true,decide_eq_true_eq,Option.isSome_iff_exists] at hskip
      obtain ⟨hv,timer,ht⟩ := hskip
      exact Or.inr ⟨pending,timer,hp,hv,ht,hlive pending timer hp ht⟩
    | none =>
      simp only [hp,decide_eq_true_eq] at hskip
      obtain ⟨hd,hdisk,hb,hu⟩ := hs.certified hskip
      exact Or.inl ⟨hd,hdisk,hb,hu⟩
  · rename_i hskip
    rw [if_neg hskip] at hresolved
    split
    · rename_i hc
      rw [if_pos hc] at hresolved
      simp [suspend,clearTimeout,hunsettled] at hresolved
    · refine Or.inr ⟨_,_,InsertionMap.get_set_self _ _ _,rfl,rfl,?_⟩
      exact List.mem_append_right _ List.mem_cons_self

/-- A critical set that completes its barrier is certified. -/
theorem certifyWrite_certified {s : State} {k : StoreKey} {job : Job} {write : Write}
    (hw : write.entry = none) (hd : s.disk k = some write.value) :
    Certified (certifyWrite s k job write) k write.value := by
  unfold certifyWrite
  rw [hw]
  refine ⟨rememberDurable_get (certifyBarrier s k) k write.value,hd,Or.inl (update_self _ _ _),?_⟩
  exact Finset.notMem_erase k s.uncertain

/-- A set that resolves on an I/O end is certified. -/
theorem ioJob_set_safe {s s' : State} {k : StoreKey} {job : Job} {awaiting : Awaiting}
    {outcome : IoOutcome} {value : Bytes} (hs : Suspended s k job awaiting)
    (hop : job.op = .call (.set value)) (hunsettled : s.results job.id = none)
    (hio : ioJob s k job awaiting outcome = some s') {answer : Option Bytes}
    (hresolved : s'.results job.id = some (.resolved answer)) : Certified s' k value := by
  obtain ⟨write,hawaiting,houtcome⟩ := ioJob_set_resolved hs hop hunsettled hio hresolved
  subst hawaiting
  subst houtcome
  obtain ⟨hw,hd,_⟩ := hs
  cases hio
  unfold WriteOk at hw
  split at hw
  · rename_i he
    rw [hop] at hw
    cases hw.1
    exact certifyWrite_certified he hd
  · obtain ⟨⟨scope,ho⟩,_⟩ := hw
    rw [hop] at ho
    cases ho

/-- In every reachable state, an uncertain key has no durable entry and a
durable entry is certified, except while a write of that key is between its
rename and the end of its barrier. Every set that resolves leaves its bytes
certified or queued with an armed timer. -/
theorem store_certificates {s : State} (hs : ReachableState s) :
    (∀ k, k ∈ s.uncertain → s.durable.get k = none) ∧
    (∀ k value, s.durable.get k = some value → Certified s k value ∨ BarrierRunning s k) ∧
    ∀ a s', step s a = some s' → ∀ entry ∈ s.log, ∀ value answer, entry.call = .set value →
      s.results entry.id = none → s'.results entry.id = some (.resolved answer) →
        Certified s' entry.key value ∨ QueuedLive s' entry.key value := by
  refine ⟨fun k => (reachable_keyOk hs k).certificates.1,
    fun k => (reachable_keyOk hs k).certificates.2,?_⟩
  intro a s' h entry he value answer hcall hnone hresolved
  have hk := reachable_keyOk hs entry.key
  have hafter : s'.results entry.id ≠ none := by
    rw [hresolved]
    simp
  rcases step_settles_front (reachable_orderOk hs) h he hnone hafter with
    ⟨_,rest,hc,rfl⟩ | ⟨awaiting,outcome,_,hr,hio⟩
  · have hlive : TimerLive {s with chains := update s.chains entry.key ⟨none,rest⟩} entry.key := by
      intro pending timer hp ht
      rcases reachable_timerOk hs entry.key pending timer hp ht with hl | ⟨_,id,due,hw⟩
      · exact hl
      · rw [hc] at hw
        cases congrArg Job.op (List.cons.inj hw).1
    exact startJob_set_safe (hk.dequeued hc) hlive (congrArg JobOp.call hcall) hnone hresolved
  · unfold KeyOk at hk
    rw [hr] at hk
    exact Or.inl (ioJob_set_safe hk (congrArg JobOp.call hcall) hnone hio hresolved)

/-- Two sets of a critical key, the second past its rename but not yet past
its directory sync. -/
def renamedRun : List Action :=
  [.invoke [(sessionKey,.set [1]),(sessionKey,.set [2])],
    .start sessionKey,.io sessionKey .ok,.io sessionKey .ok,.io sessionKey .ok,
    .start sessionKey,.io sessionKey .ok,.io sessionKey .ok]

theorem store_certificates_renamed :
    BarrierRunning (after step (opened sevens) renamedRun) sessionKey := by
  have hs : ReachableState (after step (opened sevens) renamedRun) :=
    ⟨opened sevens,renamedRun,⟨sevens,rfl⟩,run_after (by decide)⟩
  have hcertified := (store_certificates hs).2.1 sessionKey [1] (by decide)
  rcases hcertified with h | h
  · exact absurd h.disk (by decide)
  · exact h

/-- Between a rename and its directory sync the durable entry still names
the bytes the rename replaced. -/
theorem durable_outlives_rename :
    ¬∀ s, ReachableState s → ∀ k value, s.durable.get k = some value →
      s.disk k = some value ∧ s.barrier k ≠ .incomplete := by
  intro h
  have hs : ReachableState (after step (opened sevens) renamedRun) :=
    ⟨opened sevens,renamedRun,⟨sevens,rfl⟩,run_after (by decide)⟩
  exact absurd (h _ hs sessionKey [1] (by decide)).1 (by decide)

end Baileyrs.BridgeStore
