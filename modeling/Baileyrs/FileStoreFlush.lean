import Baileyrs.BridgeStoreDrain

/-!
# Flush of the file store

The file store sends callbacks to a snapshot backend and to the per-key backend. Its
flush waits for both backends and for the callbacks that are pending, gives the event
loop a turn, and starts over until a pass finds nothing pending and sees no admission.
Completion handlers run between a callback and the next turn of the event loop, and
may admit callbacks on either backend.
-/

namespace Baileyrs.FileStoreFlush

open LabelledRuns Function
open BridgeStore (StoreKey KeyCall Bytes Quiet Persisted LastMutation Untouched)

/-- A callback of the store. -/
structure Callback where
  /-- The callback whose completion handler admitted it. -/
  origin : Option ℕ
  /-- Whether it resolved or rejected, once it settled. -/
  outcome : Option Bool

/-- Where a flush of the snapshot backend is. -/
inductive SnapshotStage where
  | settling (admitted : List ℕ)
  | turn
  | resolved
  | rejected
  deriving DecidableEq

/-- A flush of the snapshot backend. -/
structure SnapshotFlush where
  /-- A failure was recorded. -/
  failed : Bool
  /-- Where it is. -/
  stage : SnapshotStage

/-- Where a flush is. -/
inductive Stage where
  | settling (admitted : List ℕ) (snapshot drain : ℕ)
  | turn (admitted : List ℕ)
  | resolved
  | rejected
  deriving DecidableEq

/-- A flush of the store. -/
structure Flush where
  /-- Admissions when its last pass began. -/
  before : ℕ
  /-- A failure was recorded. -/
  failed : Bool
  /-- Where it is. -/
  stage : Stage

/-- The store, its backends and the event loop. -/
structure State where
  /-- Next unused number of a callback or a flush. -/
  fresh : ℕ
  /-- Callbacks admitted so far. -/
  admissions : ℕ
  /-- Flushes that have not settled. -/
  activeFlushes : ℕ
  /-- The callbacks. -/
  callbacks : ℕ → Option Callback
  /-- Callbacks a flush has to wait for. -/
  pendingCallbacks : List ℕ
  /-- Settled callbacks whose completion handlers have not run to their end. -/
  handlers : List ℕ
  /-- Operations of the snapshot backend that its flush has to wait for. -/
  inFlight : List ℕ
  /-- Flushes of the snapshot backend. -/
  snapshotFlushes : ℕ → Option SnapshotFlush
  /-- Flushes of the store. -/
  flushes : ℕ → Option Flush
  /-- The per-key backend. -/
  store : BridgeStore.State

/-- Steps of callers, backends and the event loop. -/
inductive Action where
  | admitCallback (origin : Option ℕ) (calls : Option (List (StoreKey × KeyCall)))
  | throws (origin : Option ℕ)
  | call (c : ℕ) (calls : List (StoreKey × KeyCall))
  | settle (c : ℕ) (resolves : Bool)
  | handled (c : ℕ)
  | start (k : StoreKey)
  | io (k : StoreKey) (outcome : BridgeStore.IoOutcome)
  | fire (timer : BridgeStore.TimerHandle)
  | list
  | resume (d : ℕ)
  | flush
  | settled (f : ℕ)
  | deadline (f : ℕ)
  | turn (f : ℕ) (expired : Bool)
  | snapshotSettled (g : ℕ)
  | snapshotDeadline (g : ℕ)
  | snapshotTurn (g : ℕ) (expired : Bool)

/-- A callback has settled. -/
def hasSettled (s : State) (c : ℕ) : Bool :=
  match s.callbacks c with
  | some callback => callback.outcome.isSome
  | none => false

/-- A callback has rejected. -/
def hasRejected (s : State) (c : ℕ) : Bool :=
  match s.callbacks c with
  | some callback => callback.outcome == some false
  | none => false

/-- Only a completion handler that is running admits for its callback. -/
def mayAdmit (s : State) : Option ℕ → Bool
  | some d => s.handlers.contains d
  | none => true

/-- Record a callback on one of the backends. -/
def admitCallback (s : State) (origin : Option ℕ)
    (calls : Option (List (StoreKey × KeyCall))) : State :=
  ⟨s.fresh+1,s.admissions+1,s.activeFlushes,update s.callbacks s.fresh (some ⟨origin,none⟩),
    s.pendingCallbacks++[s.fresh],s.handlers,
    if calls.isNone then s.inFlight++[s.fresh] else s.inFlight,s.snapshotFlushes,s.flushes,
    match calls with
    | some calls => BridgeStore.withKeyLocks s.store calls
    | none => s.store⟩

/-- A callback settles; a rejected one is kept while a flush is active, and the snapshot
backend keeps it until a flush observes it. -/
def settle (s : State) (c : ℕ) (callback : Callback) (resolves : Bool) : State :=
  ⟨s.fresh,s.admissions,s.activeFlushes,
    update s.callbacks c (some ⟨callback.origin,some resolves⟩),
    if resolves || s.activeFlushes == 0 then s.pendingCallbacks.filter (· ≠ c)
    else s.pendingCallbacks,
    s.handlers++[c],if resolves then s.inFlight.filter (· ≠ c) else s.inFlight,
    s.snapshotFlushes,s.flushes,s.store⟩

/-- A step of the per-key backend. -/
def stepStore (s : State) (a : BridgeStore.Action) : Option State :=
  (BridgeStore.step s.store a).map fun store => {s with store := store}

/-- Replace the record of a flush. -/
def setFlush (s : State) (f : ℕ) (flush : Flush) : State :=
  {s with flushes := update s.flushes f (some flush)}

/-- Replace the record of a flush of the snapshot backend. -/
def setSnapshotFlush (s : State) (g : ℕ) (flush : SnapshotFlush) : State :=
  {s with snapshotFlushes := update s.snapshotFlushes g (some flush)}

/-- A flush settles. -/
def finish (s : State) (f : ℕ) (flush : Flush) (stage : Stage) : State :=
  {setFlush s f {flush with stage := stage} with activeFlushes := s.activeFlushes-1}

/-- A pass flushes both backends and notes what is pending. -/
def startPass (s : State) (f : ℕ) (failed : Bool) : State :=
  ⟨s.fresh+1,s.admissions,s.activeFlushes,s.callbacks,s.pendingCallbacks,s.handlers,s.inFlight,
    update s.snapshotFlushes s.fresh (some ⟨false,.settling s.inFlight⟩),
    update s.flushes f
      (some ⟨s.admissions,failed,.settling s.pendingCallbacks s.fresh s.store.fresh⟩),
    BridgeStore.flushAll s.store (.drain f)⟩

/-- How a flush of the snapshot backend settled: whether it rejected. -/
def snapshotOutcome (s : State) (g : ℕ) : Option Bool :=
  match s.snapshotFlushes g with
  | some flush =>
    match flush.stage with
    | .resolved => some false
    | .rejected => some true
    | _ => none
  | none => none

/-- How a flush of the per-key backend settled: whether it rejected. -/
def drainOutcome (s : State) (d : ℕ) : Option Bool :=
  match s.store.flushes d with
  | some call =>
    match call.stage with
    | .resolved => some false
    | .rejected => some true
    | _ => none
  | none => none

/-- Execute one step. -/
def step (s : State) : Action → Option State
  | .admitCallback origin calls =>
    if mayAdmit s origin then some (admitCallback s origin calls) else none
  | .throws origin =>
    if mayAdmit s origin then some {s with admissions := s.admissions+1} else none
  | .call c calls =>
    match s.callbacks c with
    | some callback => if callback.outcome = none then stepStore s (.invoke calls) else none
    | none => none
  | .settle c resolves =>
    match s.callbacks c with
    | some callback =>
      if callback.outcome = none then some (settle s c callback resolves) else none
    | none => none
  | .handled c => some {s with handlers := s.handlers.filter (· ≠ c)}
  | .start k => stepStore s (.start k)
  | .io k outcome => stepStore s (.io k outcome)
  | .fire timer => stepStore s (.fire timer)
  | .list => stepStore s .flush
  | .resume d => stepStore s (.resume d)
  | .flush =>
    some (startPass {s with
      fresh := s.fresh+1
      activeFlushes := s.activeFlushes+1} s.fresh false)
  | .settled f =>
    match s.flushes f with
    | some flush =>
      match flush.stage with
      | .settling admitted g d =>
        match snapshotOutcome s g,drainOutcome s d with
        | some snapshotFailed,some drainFailed =>
          if admitted.all (hasSettled s) then
            let failed := flush.failed || snapshotFailed || drainFailed ||
              admitted.any (hasRejected s)
            some {setFlush s f ⟨flush.before,failed,.turn admitted⟩ with
              pendingCallbacks := s.pendingCallbacks.filter (· ∉ admitted)}
          else none
        | _,_ => none
      | _ => none
    | none => none
  | .deadline f =>
    match s.flushes f with
    | some flush =>
      match flush.stage with
      | .settling _ _ _ => some (finish s f flush .rejected)
      | _ => none
    | none => none
  | .turn f expired =>
    match s.flushes f with
    | some flush =>
      match flush.stage with
      | .turn admitted =>
        if s.handlers ≠ [] then none
        else if admitted = [] ∧ s.admissions = flush.before ∧ s.pendingCallbacks = [] then
          some (finish s f flush (if flush.failed then .rejected else .resolved))
        else if expired then some (finish s f flush .rejected)
        else some (startPass s f flush.failed)
      | _ => none
    | none => none
  | .snapshotSettled g =>
    match s.snapshotFlushes g with
    | some flush =>
      match flush.stage with
      | .settling admitted =>
        if admitted.all (hasSettled s) then
          some {setSnapshotFlush s g ⟨flush.failed || admitted.any (hasRejected s),.turn⟩ with
            inFlight := s.inFlight.filter (· ∉ admitted)}
        else none
      | _ => none
    | none => none
  | .snapshotDeadline g =>
    match s.snapshotFlushes g with
    | some flush =>
      match flush.stage with
      | .settling _ => some (setSnapshotFlush s g ⟨flush.failed,.rejected⟩)
      | _ => none
    | none => none
  | .snapshotTurn g expired =>
    match s.snapshotFlushes g with
    | some flush =>
      match flush.stage with
      | .turn =>
        if s.handlers ≠ [] then none
        else if s.inFlight = [] then
          some (setSnapshotFlush s g ⟨flush.failed,if flush.failed then .rejected else .resolved⟩)
        else if expired then some (setSnapshotFlush s g ⟨flush.failed,.rejected⟩)
        else some (setSnapshotFlush s g ⟨flush.failed,.settling s.inFlight⟩)
      | _ => none
    | none => none

/-- A store just opened on a folder with arbitrary files. -/
def opened (disk : StoreKey → Option Bytes) : State where
  fresh := 0
  admissions := 0
  activeFlushes := 0
  callbacks := fun _ => none
  pendingCallbacks := []
  handlers := []
  inFlight := []
  snapshotFlushes := fun _ => none
  flushes := fun _ => none
  store := BridgeStore.opened disk

/-- A flush has resolved. -/
def Resolved (s : State) (f : ℕ) : Prop :=
  ∃ flush, s.flushes f = some flush ∧ flush.stage = .resolved

instance (s : State) (f : ℕ) : Decidable (Resolved s f) :=
  decidable_of_iff ((s.flushes f).any (fun flush => decide (flush.stage = .resolved)) = true)
    (by simp [Resolved,Option.any_eq_true])

/-- A callback was admitted before a flush was called, or by the completion handlers of
such a callback, and so on. -/
inductive Awaited (s : State) (f : ℕ) : ℕ → Prop where
  | before {c : ℕ} {callback : Callback} (hc : s.callbacks c = some callback) (hlt : c < f) :
      Awaited s f c
  | handler {c d : ℕ} {callback : Callback} (hc : s.callbacks c = some callback)
      (horigin : callback.origin = some d) (hd : Awaited s f d) : Awaited s f c

/-- The pass a flush is in found nothing pending. -/
def Flush.Last (flush : Flush) : Prop :=
  flush.stage = .turn [] ∨ ∃ g d, flush.stage = .settling [] g d

/-- The per-key backend finished its part of the pass. -/
def Drained (s : State) (flush : Flush) : Prop :=
  flush.stage = .turn [] ∨ ∃ g d, flush.stage = .settling [] g d ∧ drainOutcome s d = some false

/-- What the flushes of a store rely on. -/
structure Consistent (disk₀ : StoreKey → Option Bytes) (s : State) : Prop where
  /-- The per-key backend is in one of its states. -/
  reached : ∃ labels, run BridgeStore.step (BridgeStore.opened disk₀) labels = some s.store
  /-- Callbacks were numbered. -/
  numbered : ∀ c callback, s.callbacks c = some callback → c < s.fresh
  /-- So were flushes, which count the admissions before them. -/
  counted : ∀ f flush, s.flushes f = some flush → f < s.fresh ∧ flush.before ≤ s.admissions
  /-- Callbacks that have not settled are pending. -/
  pending : ∀ c callback, s.callbacks c = some callback → callback.outcome = none →
    c ∈ s.pendingCallbacks
  /-- Completion handlers belong to settled callbacks. -/
  handlers : ∀ c ∈ s.handlers, hasSettled s c = true
  /-- Drains of the per-key backend belong to a flush. -/
  scopes : ∀ d call f, s.store.flushes d = some call → call.scope = .drain f →
    ∃ flush, s.flushes f = some flush
  /-- A flush waits for a drain of its own. -/
  owned : ∀ f flush admitted g d, s.flushes f = some flush →
    flush.stage = .settling admitted g d →
    ∃ call, s.store.flushes d = some call ∧ call.scope = .drain f
  /-- Without a failure the drains it waited for have resolved. -/
  clean : ∀ f flush, s.flushes f = some flush → flush.failed = false →
    flush.stage ≠ .rejected → ∀ d call, s.store.flushes d = some call → call.scope = .drain f →
    call.stage = .resolved ∨ ∃ admitted g, flush.stage = .settling admitted g d
  /-- A last pass without admissions finds every callback settled. -/
  calm : ∀ f flush, s.flushes f = some flush → flush.Last → flush.before = s.admissions →
    ∀ c callback, s.callbacks c = some callback → callback.outcome ≠ none
  /-- Once its drain has resolved the per-key backend is quiet. -/
  quiet : ∀ f flush, s.flushes f = some flush → flush.failed = false →
    flush.before = s.admissions → Drained s flush → Quiet s.store

/-- The per-key backend is reachable. -/
theorem Consistent.reachable {disk₀ : StoreKey → Option Bytes} {s : State}
    (h : Consistent disk₀ s) : BridgeStore.ReachableState s.store := by
  rcases h.reached with ⟨labels,hr⟩
  exact ⟨_,labels,⟨disk₀,rfl⟩,hr⟩

theorem drainOutcome_resolved {s : State} {d : ℕ} : drainOutcome s d = some false ↔
    ∃ call, s.store.flushes d = some call ∧ call.stage = .resolved := by
  unfold drainOutcome
  cases hd : s.store.flushes d with
  | none => simp
  | some call => cases hstage : call.stage <;> simp [hstage]

theorem drainOutcome_congr {s next : State} (h : next.store = s.store) (d : ℕ) :
    drainOutcome next d = drainOutcome s d := by
  unfold drainOutcome
  rw [h]

/-- Steps that touch neither the per-key backend, the callbacks nor the flushes. -/
theorem Consistent.of_eq {disk₀ : StoreKey → Option Bytes} {s next : State}
    (h : Consistent disk₀ s) (hfresh : s.fresh ≤ next.fresh)
    (hadmissions : s.admissions ≤ next.admissions) (hcallbacks : next.callbacks = s.callbacks)
    (hpending : next.pendingCallbacks = s.pendingCallbacks)
    (hhandlers : ∀ c ∈ next.handlers, c ∈ s.handlers) (hflushes : next.flushes = s.flushes)
    (hstore : next.store = s.store) : Consistent disk₀ next := by
  have hsame : ∀ f flush, next.flushes f = some flush → flush.before = next.admissions →
      next.admissions = s.admissions := by
    intro f flush hf hbefore
    rw [hflushes] at hf
    have hcount := (h.counted f flush hf).2
    omega
  refine ⟨?_,?_,?_,?_,?_,?_,?_,?_,?_,?_⟩
  · rw [hstore]
    exact h.reached
  · rw [hcallbacks]
    intro c callback hc
    have hless := h.numbered c callback hc
    omega
  · rw [hflushes]
    intro f flush hf
    have hcount := h.counted f flush hf
    omega
  · rw [hcallbacks,hpending]
    exact h.pending
  · intro c hc
    have hold := h.handlers c (hhandlers c hc)
    unfold hasSettled at hold ⊢
    rw [hcallbacks]
    exact hold
  · rw [hstore,hflushes]
    exact h.scopes
  · rw [hstore,hflushes]
    exact h.owned
  · rw [hstore,hflushes]
    exact h.clean
  · intro f flush hf hlast hbefore
    rw [hsame f flush hf hbefore] at hbefore
    rw [hflushes] at hf
    rw [hcallbacks]
    exact h.calm f flush hf hlast hbefore
  · intro f flush hf hfailed hbefore hdrained
    rw [hsame f flush hf hbefore] at hbefore
    rw [hflushes] at hf
    rw [hstore]
    refine h.quiet f flush hf hfailed hbefore ?_
    rcases hdrained with hturn | ⟨g,d,hstage,hd⟩
    · exact .inl hturn
    · rw [drainOutcome_congr hstore] at hd
      exact .inr ⟨g,d,hstage,hd⟩

/-- A step of the per-key backend that is no new drain of a flush. -/
theorem Consistent.stepStore {disk₀ : StoreKey → Option Bytes} {s next : State}
    {a : BridgeStore.Action} (h : Consistent disk₀ s) (hs : stepStore s a = some next) (hdrain : ∀ id, a ≠ .drain id)
    (hinvoke : ∀ calls, a = .invoke calls → ∃ c callback, s.callbacks c = some callback ∧
      callback.outcome = none) : Consistent disk₀ next := by
  rcases Option.map_eq_some_iff.mp hs with ⟨store,hstore,rfl⟩
  have hreach := h.reachable
  have hnext : BridgeStore.ReachableState store := hreach.next hstore
  have hok := BridgeStore.reachable_flushOk hreach
  have hord := BridgeStore.reachable_orderOk hreach
  have hback : ∀ d record f, store.flushes d = some record → record.scope = .drain f →
      ∃ call, s.store.flushes d = some call ∧ call.scope = .drain f ∧
        (call.stage = .resolved → call = record) := by
    intro d record f hd hscope
    rcases BridgeStore.step_record hstore hd with hold | ⟨call,hcall,hsame,hstage⟩ |
      ⟨_,⟨_,hown⟩ | ⟨id,ha,_⟩⟩
    · exact ⟨record,hold,hscope,fun _ => rfl⟩
    · exact ⟨call,hcall,hsame.trans hscope,fun hresolved => absurd hresolved hstage⟩
    · rw [hown] at hscope
      cases hscope
    · exact absurd ha (hdrain id)
  have hclean : ∀ f flush, s.flushes f = some flush → flush.failed = false →
      flush.stage ≠ .rejected → ∀ d call, store.flushes d = some call → call.scope = .drain f →
      call.stage = .resolved ∨ ∃ admitted g, flush.stage = .settling admitted g d := by
    intro f flush hf hfailed hstage d record hd hscope
    rcases hback d record f hd hscope with ⟨call,hcall,hscope',hsame⟩
    rcases h.clean f flush hf hfailed hstage d call hcall hscope' with hresolved | hsettling
    · rw [← hsame hresolved]
      exact .inl hresolved
    · exact .inr hsettling
  refine ⟨?_,h.numbered,h.counted,h.pending,h.handlers,?_,?_,hclean,h.calm,?_⟩
  · rcases h.reached with ⟨labels,hr⟩
    exact ⟨labels++[a],run_snoc hr hstore⟩
  · intro d record f hd hscope
    rcases hback d record f hd hscope with ⟨call,hcall,hscope',_⟩
    exact h.scopes d call f hcall hscope'
  · intro f flush admitted g d hf hstage
    rcases h.owned f flush admitted g d hf hstage with ⟨call,hcall,hscope⟩
    rcases BridgeStore.step_keeps hok hstore hcall with ⟨record,hrecord,hsame,_⟩
    exact ⟨record,hrecord,hsame.trans hscope⟩
  · intro f flush hf hfailed hbefore hdrained
    have hquiet : Drained s flush → Quiet store := by
      intro hold
      have hlast : flush.Last := by
        rcases hold with hturn | ⟨g,d,hstage,_⟩
        · exact .inl hturn
        · exact .inr ⟨g,d,hstage⟩
      have hbeforeQuiet := h.quiet f flush hf hfailed hbefore hold
      refine (hbeforeQuiet.step hord (BridgeStore.reachable_keyOk hreach) hstore ?_).1
      intro calls ha
      rcases hinvoke calls ha with ⟨c,callback,hc,hnone⟩
      exact h.calm f flush hf hlast hbefore c callback hc hnone
    rcases hdrained with hturn | ⟨g,d,hstage,hd⟩
    · exact hquiet (.inl hturn)
    · rcases drainOutcome_resolved.mp hd with ⟨record,hrecord,hresolved⟩
      by_cases hold : drainOutcome s d = some false
      · exact hquiet (.inr ⟨g,d,hstage,hold⟩)
      · rcases h.owned f flush [] g d hf hstage with ⟨call,hcall,hscope⟩
        rcases BridgeStore.step_keeps hok hstore hcall with ⟨record',hrecord',hsame,_⟩
        have hrecordSame : record' = record := by
          change store.flushes d = some record at hrecord
          rw [hrecord] at hrecord'
          exact (Option.some.inj hrecord').symm
        subst hrecordSame
        have hnot : ¬BridgeStore.FlushResolved s.store (.drain f) d := by
          rintro ⟨old,hgot,_,hstageOld⟩
          exact hold (drainOutcome_resolved.mpr ⟨old,hgot,hstageOld⟩)
        have hquiescent := BridgeStore.step_quiescent hord hok hstore hnot
          ⟨record',hrecord',hsame.trans hscope,hresolved⟩
        refine hquiescent.quiet (BridgeStore.reachable_drainOk hnext) ?_
        intro e other hother hscopeOther
        have hstageNe : flush.stage ≠ .rejected := by
          rw [hstage]
          simp
        rcases hclean f flush hf hfailed hstageNe e other hother hscopeOther with
          hdone | ⟨admitted,g',hstage'⟩
        · exact hdone
        · rw [hstage] at hstage'
          cases hstage'
          rw [hrecord'] at hother
          cases hother
          exact hresolved

/-- A pass begins: the drains before it have resolved unless one failed. -/
theorem Consistent.startPass {disk₀ : StoreKey → Option Bytes} {s : State}
    (h : Consistent disk₀ s) {f : ℕ} {failed : Bool} (hf : f < s.fresh)
    (hresolved : failed = false → ∀ d call, s.store.flushes d = some call →
      call.scope = .drain f → call.stage = .resolved) : Consistent disk₀ (startPass s f failed) := by
  have hstore : BridgeStore.step s.store (.drain f) =
      some (BridgeStore.flushAll s.store (.drain f)) := rfl
  have hreach := h.reachable
  have hnext := hreach.next hstore
  have hok := BridgeStore.reachable_flushOk hreach
  have hord := BridgeStore.reachable_orderOk hreach
  have hback : ∀ d record g, (BridgeStore.flushAll s.store (.drain f)).flushes d = some record →
      record.scope = .drain g → (∃ call, s.store.flushes d = some call ∧ call.scope = .drain g ∧
        (call.stage = .resolved → call = record)) ∨ d = s.store.fresh ∧ g = f := by
    intro d record g hd hscope
    rcases BridgeStore.step_record hstore hd with hold | ⟨call,hcall,hsame,hstage⟩ |
      ⟨hfresh,⟨ha,_⟩ | ⟨id,ha,hscope'⟩⟩
    · exact .inl ⟨record,hold,hscope,fun _ => rfl⟩
    · exact .inl ⟨call,hcall,hsame.trans hscope,fun hdone => absurd hdone hstage⟩
    · cases ha
    · cases ha
      rw [hscope] at hscope'
      cases hscope'
      exact .inr ⟨hfresh,rfl⟩
  have hnewRecord : ∃ call, (BridgeStore.flushAll s.store (.drain f)).flushes s.store.fresh =
      some call ∧ call.scope = .drain f := by
    rcases BridgeStore.flushAll_loopStep s.store (.drain f) with ⟨call',hl⟩
    refine ⟨call',?_,hl.scope⟩
    rw [hl.flushes,update_self]
  have hcases : ∀ g flush, (FileStoreFlush.startPass s f failed).flushes g = some flush →
      g = f ∧ flush = ⟨s.admissions,failed,
        .settling s.pendingCallbacks s.fresh s.store.fresh⟩ ∨
      g ≠ f ∧ s.flushes g = some flush := by
    intro g flush hg
    by_cases hgf : g = f
    · subst hgf
      change update s.flushes g _ g = some flush at hg
      rw [update_self] at hg
      exact .inl ⟨rfl,(Option.some.inj hg).symm⟩
    · change update s.flushes f _ g = some flush at hg
      rw [update_of_ne hgf] at hg
      exact .inr ⟨hgf,hg⟩
  have hfound : ∀ g flush, s.flushes g = some flush →
      ∃ other, (FileStoreFlush.startPass s f failed).flushes g = some other := by
    intro g flush hg
    by_cases hgf : g = f
    · subst hgf
      exact ⟨_,update_self _ _ _⟩
    · exact ⟨flush,(update_of_ne hgf _ _).trans hg⟩
  have hclean : ∀ g flush, (FileStoreFlush.startPass s f failed).flushes g = some flush →
      flush.failed = false → flush.stage ≠ .rejected → ∀ d call,
      (BridgeStore.flushAll s.store (.drain f)).flushes d = some call → call.scope = .drain g →
      call.stage = .resolved ∨ ∃ admitted sn, flush.stage = .settling admitted sn d := by
    intro g flush hg hfailed hstage d record hd hscope
    rcases hcases g flush hg with ⟨rfl,rfl⟩ | ⟨hgf,hold⟩
    · rcases hback d record g hd hscope with ⟨call,hcall,hscope',hsame⟩ | ⟨hfresh,_⟩
      · have hdone := hresolved hfailed d call hcall hscope'
        rw [← hsame hdone]
        exact .inl hdone
      · subst hfresh
        exact .inr ⟨_,_,rfl⟩
    · rcases hback d record g hd hscope with ⟨call,hcall,hscope',hsame⟩ | ⟨_,heq⟩
      · rcases h.clean g flush hold hfailed hstage d call hcall hscope' with hdone | hsettling
        · rw [← hsame hdone]
          exact .inl hdone
        · exact .inr hsettling
      · exact absurd heq hgf
  refine ⟨?_,?_,?_,h.pending,h.handlers,?_,?_,hclean,?_,?_⟩
  · rcases h.reached with ⟨labels,hr⟩
    exact ⟨labels++[.drain f],run_snoc hr hstore⟩
  · intro c callback hc
    have hless := h.numbered c callback hc
    change c < s.fresh+1
    omega
  · intro g flush hg
    change g < s.fresh+1 ∧ flush.before ≤ s.admissions
    rcases hcases g flush hg with ⟨rfl,rfl⟩ | ⟨_,hold⟩
    · exact ⟨by omega,Nat.le_refl _⟩
    · have hcount := h.counted g flush hold
      omega
  · intro d record g hd hscope
    rcases hback d record g hd hscope with ⟨call,hcall,hscope',_⟩ | ⟨_,rfl⟩
    · rcases h.scopes d call g hcall hscope' with ⟨flush,hflush⟩
      exact hfound g flush hflush
    · exact ⟨_,update_self _ _ _⟩
  · intro g flush admitted sn d hg hstage
    rcases hcases g flush hg with ⟨rfl,rfl⟩ | ⟨_,hold⟩
    · cases hstage
      exact hnewRecord
    · rcases h.owned g flush admitted sn d hold hstage with ⟨call,hcall,hscope⟩
      rcases BridgeStore.step_keeps hok hstore hcall with ⟨record,hrecord,hsame,_⟩
      exact ⟨record,hrecord,hsame.trans hscope⟩
  · intro g flush hg hlast hbefore c callback hc
    rcases hcases g flush hg with ⟨rfl,rfl⟩ | ⟨_,hold⟩
    · have hnone : s.pendingCallbacks = [] := by
        rcases hlast with hturn | ⟨sn,d,hstage⟩
        · cases hturn
        · exact (Stage.settling.inj hstage).1
      intro hout
      have hmem := h.pending c callback hc hout
      rw [hnone] at hmem
      cases hmem
    · exact h.calm g flush hold hlast hbefore c callback hc
  · intro g flush hg hfailed hbefore hdrained
    rcases hcases g flush hg with ⟨rfl,rfl⟩ | ⟨hgf,hold⟩
    · rcases hdrained with hturn | ⟨sn,d,hstage,hd⟩
      · cases hturn
      · have hsn := (Stage.settling.inj hstage).2.2
        subst hsn
        rcases drainOutcome_resolved.mp hd with ⟨record,hrecord,hdone⟩
        rcases hnewRecord with ⟨record',hrecord',hscope⟩
        change (BridgeStore.flushAll s.store (.drain g)).flushes s.store.fresh = some record
          at hrecord
        have hsame : record' = record := by
          rw [hrecord] at hrecord'
          exact (Option.some.inj hrecord').symm
        subst hsame
        have hnot : ¬BridgeStore.FlushResolved s.store (.drain g) s.store.fresh := by
          rintro ⟨old,hgot,_,_⟩
          exact Nat.lt_irrefl _ (hok.flushes_fresh s.store.fresh old hgot)
        have hquiescent := BridgeStore.step_quiescent hord hok hstore hnot
          ⟨record',hrecord',hscope,hdone⟩
        refine hquiescent.quiet (BridgeStore.reachable_drainOk hnext) ?_
        intro e other hother hscopeOther
        rcases hclean g _ hg hfailed (by simp) e other hother hscopeOther with
          hresolvedOther | ⟨admitted,sn',hstage'⟩
        · exact hresolvedOther
        · cases hstage'
          rw [hrecord'] at hother
          cases hother
          exact hdone
    · have hbeforeDrained : Drained s flush := by
        rcases hdrained with hturn | ⟨sn,d,hstage,hd⟩
        · exact .inl hturn
        · refine .inr ⟨sn,d,hstage,?_⟩
          rcases h.owned g flush [] sn d hold hstage with ⟨call,hcall,_⟩
          rcases drainOutcome_resolved.mp hd with ⟨record,hrecord,hdone⟩
          have hne : d ≠ s.store.fresh := by
            have hless := hok.flushes_fresh d call hcall
            omega
          rcases BridgeStore.flushAll_loopStep s.store (.drain f) with ⟨call',hl⟩
          change (BridgeStore.flushAll s.store (.drain f)).flushes d = some record at hrecord
          rw [hl.flushes,update_of_ne hne] at hrecord
          exact drainOutcome_resolved.mpr ⟨record,hrecord,hdone⟩
      have hquiet := h.quiet g flush hold hfailed hbefore hbeforeDrained
      exact (hquiet.step hord (BridgeStore.reachable_keyOk hreach) hstore
        (fun calls ha => nomatch ha)).1

/-- A flush moves on within its pass, or settles. -/
theorem Consistent.moves {disk₀ : StoreKey → Option Bytes} {s next : State}
    (h : Consistent disk₀ s) {f : ℕ} {flush moved : Flush} (hf : s.flushes f = some flush)
    (hfresh : next.fresh = s.fresh) (hadmissions : next.admissions = s.admissions)
    (hcallbacks : next.callbacks = s.callbacks) (hhandlers : next.handlers = s.handlers)
    (hstore : next.store = s.store) (hflushes : next.flushes = update s.flushes f (some moved))
    (hbefore : moved.before = flush.before)
    (hpending : ∀ c callback, s.callbacks c = some callback → callback.outcome = none →
      c ∈ next.pendingCallbacks) (howned : ∀ admitted g d, moved.stage ≠ .settling admitted g d)
    (hclean : moved.failed = false → moved.stage ≠ .rejected → ∀ d call,
      s.store.flushes d = some call → call.scope = .drain f → call.stage = .resolved) (hcalm : moved.Last → flush.Last)
    (hquiet : moved.failed = false → moved.before = s.admissions → Drained next moved →
      Quiet s.store) : Consistent disk₀ next := by
  have hcases : ∀ g other, next.flushes g = some other →
      g = f ∧ other = moved ∨ g ≠ f ∧ s.flushes g = some other := by
    intro g other hg
    rw [hflushes] at hg
    by_cases hgf : g = f
    · subst hgf
      rw [update_self] at hg
      exact .inl ⟨rfl,(Option.some.inj hg).symm⟩
    · rw [update_of_ne hgf] at hg
      exact .inr ⟨hgf,hg⟩
  refine ⟨?_,?_,?_,?_,?_,?_,?_,?_,?_,?_⟩
  · rw [hstore]
    exact h.reached
  · rw [hcallbacks,hfresh]
    exact h.numbered
  · intro g other hg
    rw [hfresh,hadmissions]
    rcases hcases g other hg with ⟨rfl,rfl⟩ | ⟨_,hold⟩
    · rw [hbefore]
      exact h.counted g flush hf
    · exact h.counted g other hold
  · rw [hcallbacks]
    exact hpending
  · intro c hc
    rw [hhandlers] at hc
    have hold := h.handlers c hc
    unfold hasSettled at hold ⊢
    rw [hcallbacks]
    exact hold
  · intro d call g hd hscope
    rw [hstore] at hd
    rcases h.scopes d call g hd hscope with ⟨other,hother⟩
    rw [hflushes]
    by_cases hgf : g = f
    · subst hgf
      exact ⟨moved,update_self _ _ _⟩
    · exact ⟨other,(update_of_ne hgf _ _).trans hother⟩
  · intro g other admitted sn d hg hstage
    rw [hstore]
    rcases hcases g other hg with ⟨rfl,rfl⟩ | ⟨_,hold⟩
    · exact absurd hstage (howned admitted sn d)
    · exact h.owned g other admitted sn d hold hstage
  · intro g other hg hfailed hstage d call hd hscope
    rw [hstore] at hd
    rcases hcases g other hg with ⟨rfl,rfl⟩ | ⟨_,hold⟩
    · exact .inl (hclean hfailed hstage d call hd hscope)
    · exact h.clean g other hold hfailed hstage d call hd hscope
  · intro g other hg hlast hcount
    rw [hadmissions] at hcount
    rw [hcallbacks]
    rcases hcases g other hg with ⟨rfl,rfl⟩ | ⟨_,hold⟩
    · rw [hbefore] at hcount
      exact h.calm g flush hf (hcalm hlast) hcount
    · exact h.calm g other hold hlast hcount
  · intro g other hg hfailed hcount hdrained
    rw [hadmissions] at hcount
    rw [hstore]
    rcases hcases g other hg with ⟨rfl,rfl⟩ | ⟨_,hold⟩
    · exact hquiet hfailed hcount hdrained
    · refine h.quiet g other hold hfailed hcount ?_
      rcases hdrained with hturn | ⟨sn,d,hstage,hd⟩
      · exact .inl hturn
      · rw [drainOutcome_congr hstore] at hd
        exact .inr ⟨sn,d,hstage,hd⟩

/-- A callback is admitted. -/
theorem Consistent.admitCallback {disk₀ : StoreKey → Option Bytes} {s : State}
    (h : Consistent disk₀ s) (origin : Option ℕ) (calls : Option (List (StoreKey × KeyCall))) :
    Consistent disk₀ (admitCallback s origin calls) := by
  have hstoreFlushes : (FileStoreFlush.admitCallback s origin calls).store.flushes =
      s.store.flushes := by
    cases calls with
    | none => rfl
    | some calls => exact BridgeStore.withKeyLocks_flushes s.store calls
  have hold : ∀ c, c ≠ s.fresh →
      (FileStoreFlush.admitCallback s origin calls).callbacks c = s.callbacks c := by
    intro c hne
    exact update_of_ne hne _ _
  have hlate : ∀ f flush, s.flushes f = some flush → flush.before ≠ s.admissions+1 := by
    intro f flush hf
    have hcount := (h.counted f flush hf).2
    omega
  refine ⟨?_,?_,?_,?_,?_,?_,?_,?_,?_,?_⟩
  · rcases h.reached with ⟨labels,hr⟩
    cases calls with
    | none => exact ⟨labels,hr⟩
    | some calls => exact ⟨labels++[.invoke calls],run_snoc hr rfl⟩
  · intro c callback hc
    change c < s.fresh+1
    by_cases hne : c = s.fresh
    · omega
    · rw [hold c hne] at hc
      have hless := h.numbered c callback hc
      omega
  · intro f flush hf
    have hcount := h.counted f flush hf
    change f < s.fresh+1 ∧ flush.before ≤ s.admissions+1
    omega
  · intro c callback hc hout
    change c ∈ s.pendingCallbacks++[s.fresh]
    by_cases hne : c = s.fresh
    · simp [hne]
    · rw [hold c hne] at hc
      have hmem := h.pending c callback hc hout
      exact List.mem_append_left _ hmem
  · intro c hc
    have hdone := h.handlers c hc
    have hne : c ≠ s.fresh := by
      intro heq
      unfold hasSettled at hdone
      cases hcb : s.callbacks c with
      | none =>
        rw [hcb] at hdone
        cases hdone
      | some callback =>
        have hless := h.numbered c callback hcb
        omega
    unfold hasSettled at hdone ⊢
    rw [hold c hne]
    exact hdone
  · rw [hstoreFlushes]
    exact h.scopes
  · rw [hstoreFlushes]
    exact h.owned
  · rw [hstoreFlushes]
    exact h.clean
  · intro f flush hf _ hbefore
    exact absurd hbefore (hlate f flush hf)
  · intro f flush hf _ hbefore _
    exact absurd hbefore (hlate f flush hf)

/-- A callback settles. -/
theorem Consistent.settle {disk₀ : StoreKey → Option Bytes} {s : State}
    (h : Consistent disk₀ s) {c : ℕ} {callback : Callback} (hc : s.callbacks c = some callback)
    (resolves : Bool) : Consistent disk₀ (settle s c callback resolves) := by
  have hcallbacks : ∀ d other, (FileStoreFlush.settle s c callback resolves).callbacks d =
      some other → d = c ∧ other.outcome = some resolves ∨ d ≠ c ∧ s.callbacks d = some other := by
    intro d other hd
    change update s.callbacks c _ d = some other at hd
    by_cases hdc : d = c
    · subst hdc
      rw [update_self] at hd
      cases hd
      exact .inl ⟨rfl,rfl⟩
    · rw [update_of_ne hdc] at hd
      exact .inr ⟨hdc,hd⟩
  refine ⟨h.reached,?_,h.counted,?_,?_,h.scopes,h.owned,h.clean,?_,?_⟩
  · intro d other hd
    rcases hcallbacks d other hd with ⟨rfl,_⟩ | ⟨_,hold⟩
    · exact h.numbered d callback hc
    · exact h.numbered d other hold
  · intro d other hd hnone
    rcases hcallbacks d other hd with ⟨_,hsettled⟩ | ⟨hdc,hold⟩
    · rw [hnone] at hsettled
      cases hsettled
    · have hmem := h.pending d other hold hnone
      change d ∈ if resolves || s.activeFlushes == 0 then s.pendingCallbacks.filter (· ≠ c)
        else s.pendingCallbacks
      split
      · exact List.mem_filter.mpr ⟨hmem,by simpa using hdc⟩
      · exact hmem
  · intro d hd
    have hcase : d ∈ s.handlers ∨ d = c := by simpa [FileStoreFlush.settle] using hd
    by_cases hdc : d = c
    · subst hdc
      simp [hasSettled,FileStoreFlush.settle]
    · have hold : hasSettled s d = true := by
        rcases hcase with hmem | heq
        · exact h.handlers d hmem
        · exact absurd heq hdc
      unfold hasSettled at hold ⊢
      change (match update s.callbacks c _ d with
        | some callback => callback.outcome.isSome
        | none => false) = true
      rw [update_of_ne hdc]
      exact hold
  · intro f flush hf hlast hbefore d other hd
    rcases hcallbacks d other hd with ⟨_,hsettled⟩ | ⟨_,hold⟩
    · rw [hsettled]
      simp
    · exact h.calm f flush hf hlast hbefore d other hold
  · intro f flush hf hfailed hbefore hdrained
    exact h.quiet f flush hf hfailed hbefore hdrained

/-- Without a failure every drain of a flush that waits for none has resolved. -/
theorem Consistent.drains_resolved {disk₀ : StoreKey → Option Bytes} {s : State}
    (h : Consistent disk₀ s) {f : ℕ} {flush : Flush} {admitted : List ℕ}
    (hf : s.flushes f = some flush) (hstage : flush.stage = .turn admitted)
    (hfailed : flush.failed = false) {d : ℕ} {call : BridgeStore.FlushCall}
    (hd : s.store.flushes d = some call) (hscope : call.scope = .drain f) : call.stage = .resolved := by
  have hne : flush.stage ≠ .rejected := by
    rw [hstage]
    simp
  rcases h.clean f flush hf hfailed hne d call hd hscope with hdone | ⟨later,g,hsettling⟩
  · exact hdone
  · rw [hstage] at hsettling
    cases hsettling

/-- The promises of a pass have settled. -/
theorem Consistent.settled {disk₀ : StoreKey → Option Bytes} {s : State}
    (h : Consistent disk₀ s) {f g d : ℕ} {flush : Flush} {admitted : List ℕ}
    {snapshotFailed drainFailed : Bool} (hf : s.flushes f = some flush)
    (hstage : flush.stage = .settling admitted g d) (hdrain : drainOutcome s d = some drainFailed)
    (hall : admitted.all (hasSettled s) = true) :
    Consistent disk₀ {setFlush s f ⟨flush.before,flush.failed || snapshotFailed || drainFailed ||
      admitted.any (hasRejected s),.turn admitted⟩ with
        pendingCallbacks := s.pendingCallbacks.filter (· ∉ admitted)} := by
  refine h.moves hf rfl rfl rfl rfl rfl rfl rfl ?_ (by simp) ?_ ?_ ?_
  · intro c callback hc hout
    have hmem := h.pending c callback hc hout
    have hnot : c ∉ admitted := by
      intro hin
      have hdone := List.all_eq_true.mp hall c hin
      unfold hasSettled at hdone
      rw [hc] at hdone
      simp [hout] at hdone
    exact List.mem_filter.mpr ⟨hmem,by simpa using hnot⟩
  · intro hfailed _ e call he hscope
    have hparts : flush.failed = false ∧ drainFailed = false := by
      simp only [Bool.or_eq_false_iff] at hfailed
      exact ⟨hfailed.1.1.1,hfailed.1.2⟩
    have hne : flush.stage ≠ .rejected := by
      rw [hstage]
      simp
    rcases h.clean f flush hf hparts.1 hne e call he hscope with hdone | ⟨later,g',hsettling⟩
    · exact hdone
    · rw [hstage] at hsettling
      have heq := (Stage.settling.inj hsettling).2.2
      subst heq
      rw [hparts.2] at hdrain
      rcases drainOutcome_resolved.mp hdrain with ⟨other,hother,hdone⟩
      rw [he] at hother
      rw [Option.some.inj hother]
      exact hdone
  · intro hlast
    rcases hlast with hturn | ⟨g',d',hsettling⟩
    · have hnil := Stage.turn.inj hturn
      rw [hnil] at hstage
      exact .inr ⟨g,d,hstage⟩
    · cases hsettling
  · intro hfailed hbefore hdrained
    have hparts : flush.failed = false ∧ drainFailed = false := by
      simp only [Bool.or_eq_false_iff] at hfailed
      exact ⟨hfailed.1.1.1,hfailed.1.2⟩
    rcases hdrained with hturn | ⟨g',d',hsettling,_⟩
    · have hnil := Stage.turn.inj hturn
      rw [hnil] at hstage
      rw [hparts.2] at hdrain
      exact h.quiet f flush hf hparts.1 hbefore (.inr ⟨g,d,hstage,hdrain⟩)
    · cases hsettling

/-- A flush settles. -/
theorem Consistent.finish {disk₀ : StoreKey → Option Bytes} {s : State}
    (h : Consistent disk₀ s) {f : ℕ} {flush : Flush} {stage : Stage} (hf : s.flushes f = some flush)
    (hend : stage = .rejected ∨ stage = .resolved ∧ ∃ admitted, flush.stage = .turn admitted) :
    Consistent disk₀ (finish s f flush stage) := by
  have hnotLast : stage ≠ .turn [] ∧ ∀ admitted g d, stage ≠ .settling admitted g d := by
    rcases hend with rfl | ⟨rfl,_⟩ <;> simp
  refine h.moves hf rfl rfl rfl rfl rfl rfl rfl h.pending hnotLast.2 ?_ ?_ ?_
  · intro hfailed hne d call hd hscope
    rcases hend with hrejected | ⟨_,admitted,hturn⟩
    · exact absurd hrejected hne
    · exact h.drains_resolved hf hturn hfailed hd hscope
  · intro hlast
    rcases hlast with hturn | ⟨g,d,hsettling⟩
    · exact absurd hturn hnotLast.1
    · exact absurd hsettling (hnotLast.2 [] g d)
  · intro _ _ hdrained
    rcases hdrained with hturn | ⟨g,d,hsettling,_⟩
    · exact absurd hturn hnotLast.1
    · exact absurd hsettling (hnotLast.2 [] g d)

/-- What one step does. -/
inductive Effect (s : State) : State → Prop where
  | admits (origin : Option ℕ) (calls : Option (List (StoreKey × KeyCall)))
      (hmay : mayAdmit s origin = true) : Effect s (admitCallback s origin calls)
  | settles {c : ℕ} {callback : Callback} (hc : s.callbacks c = some callback)
      (hout : callback.outcome = none) (resolves : Bool) :
      Effect s (settle s c callback resolves)
  | apart {next : State} (hfresh : next.fresh = s.fresh)
      (hadmissions : s.admissions ≤ next.admissions) (hcallbacks : next.callbacks = s.callbacks)
      (hpending : next.pendingCallbacks = s.pendingCallbacks)
      (hhandlers : ∀ c ∈ next.handlers, c ∈ s.handlers) (hflushes : next.flushes = s.flushes)
      (hstore : next.store = s.store) : Effect s next
  | store {a : BridgeStore.Action} {next : State} (hs : stepStore s a = some next)
      (hdrain : ∀ id, a ≠ .drain id)
      (hinvoke : ∀ calls, a = .invoke calls → ∃ c callback, s.callbacks c = some callback ∧
        callback.outcome = none) : Effect s next
  | begins : Effect s (startPass {s with
      fresh := s.fresh+1
      activeFlushes := s.activeFlushes+1} s.fresh false)
  | settled {f g d : ℕ} {flush : Flush} {admitted : List ℕ} {snapshotFailed drainFailed : Bool}
      (hf : s.flushes f = some flush) (hstage : flush.stage = .settling admitted g d)
      (hdrain : drainOutcome s d = some drainFailed)
      (hall : admitted.all (hasSettled s) = true) :
      Effect s {setFlush s f ⟨flush.before,flush.failed || snapshotFailed || drainFailed ||
        admitted.any (hasRejected s),.turn admitted⟩ with
          pendingCallbacks := s.pendingCallbacks.filter (· ∉ admitted)}
  | repeats {f : ℕ} {flush : Flush} {admitted : List ℕ} (hf : s.flushes f = some flush)
      (hstage : flush.stage = .turn admitted) : Effect s (startPass s f flush.failed)
  | rejects {f : ℕ} {flush : Flush} (hf : s.flushes f = some flush) :
      Effect s (finish s f flush .rejected)
  | resolves {f : ℕ} {flush : Flush} (hf : s.flushes f = some flush)
      (hstage : flush.stage = .turn []) (hfailed : flush.failed = false)
      (hbefore : flush.before = s.admissions) (hpending : s.pendingCallbacks = [])
      (hhandlers : s.handlers = []) : Effect s (finish s f flush .resolved)

/-- Every step has one of the effects. -/
theorem step_effect {s next : State} {a : Action} (hs : step s a = some next) : Effect s next := by
  cases a with
  | admitCallback origin calls =>
    rcases Option.ite_none_right_eq_some.mp hs with ⟨hmay,hs⟩
    cases hs
    exact .admits origin calls hmay
  | throws origin =>
    rcases Option.ite_none_right_eq_some.mp hs with ⟨_,hs⟩
    cases hs
    exact .apart rfl (Nat.le_succ _) rfl rfl (fun _ hc => hc) rfl rfl
  | call c calls =>
    simp only [step] at hs
    split at hs
    · rename_i callback hc
      rcases Option.ite_none_right_eq_some.mp hs with ⟨hout,hs⟩
      exact .store hs (by simp) (fun _ _ => ⟨c,callback,hc,hout⟩)
    · cases hs
  | settle c resolves =>
    simp only [step] at hs
    split at hs
    · rename_i callback hc
      rcases Option.ite_none_right_eq_some.mp hs with ⟨hout,hs⟩
      cases hs
      exact .settles hc hout resolves
    · cases hs
  | handled c =>
    cases hs
    exact .apart rfl (Nat.le_refl _) rfl rfl (fun _ hc => (List.mem_filter.mp hc).1) rfl rfl
  | start k =>
    have hstore : stepStore s (.start k) = some next := hs
    exact .store hstore (by simp) (by simp)
  | io k outcome =>
    have hstore : stepStore s (.io k outcome) = some next := hs
    exact .store hstore (by simp) (by simp)
  | fire timer =>
    have hstore : stepStore s (.fire timer) = some next := hs
    exact .store hstore (by simp) (by simp)
  | list =>
    have hstore : stepStore s .flush = some next := hs
    exact .store hstore (by simp) (by simp)
  | resume d =>
    have hstore : stepStore s (.resume d) = some next := hs
    exact .store hstore (by simp) (by simp)
  | flush =>
    cases hs
    exact .begins
  | settled f =>
    simp only [step] at hs
    split at hs
    · rename_i flush hf
      split at hs
      · rename_i admitted g d hstage
        split at hs
        · rename_i snapshotFailed drainFailed _ hdrain
          rcases Option.ite_none_right_eq_some.mp hs with ⟨hall,hs⟩
          cases hs
          exact .settled hf hstage hdrain hall
        · cases hs
      · cases hs
    · cases hs
  | deadline f =>
    simp only [step] at hs
    split at hs
    · rename_i flush hf
      split at hs
      · cases hs
        exact .rejects hf
      · cases hs
    · cases hs
  | turn f expired =>
    simp only [step] at hs
    split at hs
    · rename_i flush hf
      split at hs
      · rename_i admitted hstage
        split at hs
        · cases hs
        · rename_i hhandlers
          split at hs
          · rename_i hlast
            cases hs
            cases hfailed : flush.failed with
            | true => exact .rejects hf
            | false =>
              rw [hlast.1] at hstage
              exact .resolves hf hstage hfailed hlast.2.1.symm hlast.2.2
                (Decidable.not_not.mp hhandlers)
          · split at hs
            · cases hs
              exact .rejects hf
            · cases hs
              exact .repeats hf hstage
      · cases hs
    · cases hs
  | snapshotSettled g =>
    simp only [step] at hs
    split at hs
    · split at hs
      · rcases Option.ite_none_right_eq_some.mp hs with ⟨_,hs⟩
        cases hs
        exact .apart rfl (Nat.le_refl _) rfl rfl (fun _ hc => hc) rfl rfl
      · cases hs
    · cases hs
  | snapshotDeadline g =>
    simp only [step] at hs
    split at hs
    · split at hs
      · cases hs
        exact .apart rfl (Nat.le_refl _) rfl rfl (fun _ hc => hc) rfl rfl
      · cases hs
    · cases hs
  | snapshotTurn g expired =>
    simp only [step] at hs
    split at hs
    · split at hs
      · split at hs
        · cases hs
        · split at hs
          · cases hs
            exact .apart rfl (Nat.le_refl _) rfl rfl (fun _ hc => hc) rfl rfl
          · split at hs
            · cases hs
              exact .apart rfl (Nat.le_refl _) rfl rfl (fun _ hc => hc) rfl rfl
            · cases hs
              exact .apart rfl (Nat.le_refl _) rfl rfl (fun _ hc => hc) rfl rfl
      · cases hs
    · cases hs

/-- Every step keeps what the flushes rely on. -/
theorem Consistent.step {disk₀ : StoreKey → Option Bytes} {s next : State} {a : Action}
    (h : Consistent disk₀ s) (hs : step s a = some next) : Consistent disk₀ next := by
  cases step_effect hs with
  | admits origin calls _ => exact h.admitCallback origin calls
  | settles hc _ resolves => exact h.settle hc resolves
  | apart hfresh hadmissions hcallbacks hpending hhandlers hflushes hstore =>
    exact h.of_eq hfresh.ge hadmissions hcallbacks hpending hhandlers hflushes hstore
  | store hstore hdrain hinvoke => exact h.stepStore hstore hdrain hinvoke
  | begins =>
    have hopened : Consistent disk₀ {s with
        fresh := s.fresh+1
        activeFlushes := s.activeFlushes+1} :=
      h.of_eq (Nat.le_succ _) (Nat.le_refl _) rfl rfl (fun _ hc => hc) rfl rfl
    refine hopened.startPass (Nat.lt_succ_self _) ?_
    intro _ d call hd hscope
    rcases h.scopes d call s.fresh hd hscope with ⟨flush,hflush⟩
    exact absurd (h.counted s.fresh flush hflush).1 (Nat.lt_irrefl _)
  | settled hf hstage hdrain hall => exact h.settled hf hstage hdrain hall
  | repeats hf hstage =>
    refine h.startPass (h.counted _ _ hf).1 ?_
    intro hfailed d call hd hscope
    exact h.drains_resolved hf hstage hfailed hd hscope
  | rejects hf => exact h.finish hf (.inl rfl)
  | resolves hf hstage _ _ _ _ => exact h.finish hf (.inr ⟨rfl,_,hstage⟩)

/-- A store just opened. -/
theorem opened_consistent (disk₀ : StoreKey → Option Bytes) : Consistent disk₀ (opened disk₀) := by
  refine ⟨⟨[],rfl⟩,?_,?_,?_,?_,?_,?_,?_,?_,?_⟩
  · intro c callback hc
    cases hc
  · intro f flush hf
    cases hf
  · intro c callback hc
    cases hc
  · intro c hc
    cases hc
  · intro d call f hd
    cases hd
  · intro f flush admitted g d hf
    cases hf
  · intro f flush hf
    cases hf
  · intro f flush hf
    cases hf
  · intro f flush hf
    cases hf

/-- Every run keeps what the flushes rely on. -/
theorem run_consistent {disk₀ : StoreKey → Option Bytes} {labels : List Action} {s : State}
    (hs : run step (opened disk₀) labels = some s) : Consistent disk₀ s :=
  run_invariant (fun _ _ _ h hn => Consistent.step h hn) hs (opened_consistent disk₀)

/-- A step of the per-key backend leaves the callbacks and the flushes alone. -/
theorem stepStore_kept {s next : State} {a : BridgeStore.Action} (hs : stepStore s a = some next) :
    next.fresh = s.fresh ∧ next.callbacks = s.callbacks ∧ next.handlers = s.handlers ∧ next.flushes = s.flushes := by
  rcases Option.map_eq_some_iff.mp hs with ⟨store,_,rfl⟩
  exact ⟨rfl,rfl,rfl,rfl⟩

theorem Resolved.of_eq {s next : State} {f : ℕ} (h : Resolved next f)
    (hflushes : next.flushes = s.flushes) : Resolved s f := by
  rcases h with ⟨flush,hf,hstage⟩
  rw [hflushes] at hf
  exact ⟨flush,hf,hstage⟩

theorem Resolved.of_update {s next : State} {f g : ℕ} {moved : Flush} (h : Resolved next f)
    (hflushes : next.flushes = update s.flushes g (some moved))
    (hmoved : f = g → moved.stage ≠ .resolved) : Resolved s f := by
  rcases h with ⟨flush,hf,hstage⟩
  rw [hflushes] at hf
  by_cases hfg : f = g
  · subst hfg
    rw [update_self] at hf
    cases hf
    exact absurd hstage (hmoved rfl)
  · rw [update_of_ne hfg] at hf
    exact ⟨flush,hf,hstage⟩

/-- A flush resolves in a turn after a pass that found nothing pending and saw no
admission, when no failure was recorded. -/
theorem step_resolves {s next : State} {a : Action} {f : ℕ} (hs : step s a = some next)
    (hbefore : ¬Resolved s f) (hafter : Resolved next f) :
    ∃ flush, s.flushes f = some flush ∧ flush.stage = .turn [] ∧ flush.failed = false ∧
      flush.before = s.admissions ∧ s.pendingCallbacks = [] ∧ s.handlers = [] ∧ next = finish s f flush .resolved := by
  cases step_effect hs with
  | admits origin calls _ => exact absurd (hafter.of_eq rfl) hbefore
  | settles hc _ resolves => exact absurd (hafter.of_eq rfl) hbefore
  | apart _ _ _ _ _ hflushes _ => exact absurd (hafter.of_eq hflushes) hbefore
  | store hstore _ _ => exact absurd (hafter.of_eq (stepStore_kept hstore).2.2.2) hbefore
  | begins => exact absurd (hafter.of_update rfl (by simp)) hbefore
  | settled hf hstage hdrain hall => exact absurd (hafter.of_update rfl (by simp)) hbefore
  | repeats hf hstage => exact absurd (hafter.of_update rfl (by simp)) hbefore
  | rejects hf => exact absurd (hafter.of_update rfl (by simp)) hbefore
  | @resolves g flush hf hstage hfailed hadmissions hpending hhandlers =>
    by_cases hfg : f = g
    · subst hfg
      exact ⟨flush,hf,hstage,hfailed,hadmissions,hpending,hhandlers,rfl⟩
    · exact absurd (hafter.of_update rfl (fun heq => (hfg heq).elim)) hbefore

/-- What follows a state in which every callback has settled and no handler runs. -/
structure Later (s later : State) : Prop where
  /-- Numbers are not used twice. -/
  fresh : s.fresh ≤ later.fresh
  /-- The callbacks of the first state stay as they are. -/
  kept : ∀ c < s.fresh, later.callbacks c = s.callbacks c
  /-- Completion handlers belong to new callbacks. -/
  handlers : ∀ c ∈ later.handlers, s.fresh ≤ c
  /-- So do the handlers that admitted the new callbacks. -/
  origins : ∀ c callback, later.callbacks c = some callback → s.fresh ≤ c →
    ∀ d, callback.origin = some d → s.fresh ≤ d

/-- Every step keeps the relation to the first state. -/
theorem Later.step {s t next : State} {a : Action} (h : Later s t)
    (hsettled : ∀ c callback, s.callbacks c = some callback → callback.outcome ≠ none)
    (hs : step t a = some next) : Later s next := by
  have hapart : t.fresh ≤ next.fresh → next.callbacks = t.callbacks →
      (∀ c ∈ next.handlers, c ∈ t.handlers) → Later s next := by
    intro hfresh hcallbacks hhandlers
    refine ⟨h.fresh.trans hfresh,?_,?_,?_⟩
    · rw [hcallbacks]
      exact h.kept
    · intro c hc
      exact h.handlers c (hhandlers c hc)
    · rw [hcallbacks]
      exact h.origins
  cases step_effect hs with
  | admits origin calls hmay =>
    have hfresh := h.fresh
    refine ⟨hfresh.trans (Nat.le_succ _),?_,h.handlers,?_⟩
    · intro c hc
      have hne : c ≠ t.fresh := by omega
      exact (update_of_ne hne _ _).trans (h.kept c hc)
    · intro c callback hc hnew d horigin
      change update t.callbacks t.fresh _ c = some callback at hc
      by_cases hct : c = t.fresh
      · subst hct
        rw [update_self] at hc
        cases hc
        have hmem : d ∈ t.handlers := by
          rw [show origin = some d from horigin] at hmay
          exact List.contains_iff_mem.mp hmay
        exact h.handlers d hmem
      · rw [update_of_ne hct] at hc
        exact h.origins c callback hc hnew d horigin
  | @settles c callback hc hout resolves =>
    have hnew : s.fresh ≤ c := by
      by_contra hold
      have hlt : c < s.fresh := by omega
      rw [h.kept c hlt] at hc
      exact hsettled c callback hc hout
    refine ⟨h.fresh,?_,?_,?_⟩
    · intro e he
      have hne : e ≠ c := by omega
      exact (update_of_ne hne _ _).trans (h.kept e he)
    · intro e he
      have hcase : e ∈ t.handlers ∨ e = c := by simpa [settle] using he
      rcases hcase with hold | rfl
      · exact h.handlers e hold
      · exact hnew
    · intro e other he hnewe d horigin
      change update t.callbacks c _ e = some other at he
      by_cases hec : e = c
      · subst hec
        rw [update_self] at he
        cases he
        exact h.origins e callback hc hnewe d horigin
      · rw [update_of_ne hec] at he
        exact h.origins e other he hnewe d horigin
  | apart hfresh _ hcallbacks _ hhandlers _ _ => exact hapart hfresh.ge hcallbacks hhandlers
  | store hstore _ _ =>
    have hkept := stepStore_kept hstore
    refine hapart hkept.1.ge hkept.2.1 ?_
    rw [hkept.2.2.1]
    exact fun _ hc => hc
  | begins => exact hapart (Nat.le_add_right t.fresh 2) rfl (fun _ hc => hc)
  | settled hf hstage hdrain hall => exact hapart (Nat.le_refl _) rfl (fun _ hc => hc)
  | repeats hf hstage => exact hapart (Nat.le_succ _) rfl (fun _ hc => hc)
  | rejects hf => exact hapart (Nat.le_refl _) rfl (fun _ hc => hc)
  | resolves hf _ _ _ _ _ => exact hapart (Nat.le_refl _) rfl (fun _ hc => hc)

/-- A callback a flush awaits was admitted before everything was settled. -/
theorem Later.awaited {s later : State} (h : Later s later) {f c : ℕ} (hf : f < s.fresh)
    (hc : Awaited later f c) : c < s.fresh ∧ ∃ callback, later.callbacks c = some callback := by
  induction hc with
  | before hc hlt => exact ⟨by omega,_,hc⟩
  | @handler c d callback hc horigin _ ih =>
    refine ⟨?_,callback,hc⟩
    by_contra hnew
    have hge := h.origins c callback hc (by omega) d horigin
    omega

/-- What holds when a flush resolves. -/
structure Quiesced (disk₀ : StoreKey → Option Bytes) (s : State) (f : ℕ) : Prop where
  /-- Every awaited callback has settled, also those a later run shows to be awaited. -/
  settled : ∀ more later, run step s more = some later → ∀ c, Awaited later f c →
    hasSettled s c = true
  /-- No callback is pending. -/
  pending : s.pendingCallbacks = []
  /-- Nothing was admitted during the last pass. -/
  calm : ∀ flush, s.flushes f = some flush → flush.before = s.admissions
  /-- The per-key backend has no pending write. -/
  written : ∀ k, s.store.pendingWrites.get k = none
  /-- Its sets are durable. -/
  durable : ∀ entry ∈ s.store.log, ∀ value, entry.call = .set value →
    s.store.results entry.id ≠ some .rejected → LastMutation s.store entry →
    Persisted disk₀ s.store entry.key value

/-- A flush resolves only when every callback it awaits has settled, none is pending and
none was admitted in its last pass, with the writes of the per-key backend durable. -/
theorem flush_quiesces {disk₀ : StoreKey → Option Bytes} {labels : List Action}
    {s next : State} {a : Action} {f : ℕ} (hr : run step (opened disk₀) labels = some s)
    (hs : step s a = some next) (hbefore : ¬Resolved s f) (hafter : Resolved next f) :
    Quiesced disk₀ next f := by
  have h := run_consistent hr
  rcases step_resolves hs hbefore hafter with
    ⟨flush,hf,hstage,hfailed,hadmissions,hpending,hhandlers,rfl⟩
  have hsettled := h.calm f flush hf (.inl hstage) hadmissions
  have hquiet := h.quiet f flush hf hfailed hadmissions (.inl hstage)
  have hstart : Later (finish s f flush .resolved) (finish s f flush .resolved) := by
    refine ⟨Nat.le_refl _,fun _ _ => rfl,?_,?_⟩
    · intro c hc
      change c ∈ s.handlers at hc
      rw [hhandlers] at hc
      cases hc
    · intro c callback hc hnew
      exact absurd (h.numbered c callback hc) (Nat.not_lt.mpr hnew)
  refine ⟨?_,hpending,?_,hquiet.pending,?_⟩
  · intro more later hmore c hc
    have hlater : Later (finish s f flush .resolved) later :=
      run_invariant (fun _ _ _ ht hn => ht.step hsettled hn) hmore hstart
    rcases hlater.awaited (h.counted f flush hf).1 hc with ⟨hlt,callback,hcallback⟩
    rw [hlater.kept c hlt] at hcallback
    have hout := hsettled c callback hcallback
    unfold hasSettled
    rw [hcallback]
    exact Option.isSome_iff_ne_none.mpr hout
  · intro other hother
    change update s.flushes f _ f = some other at hother
    rw [update_self] at hother
    cases hother
    exact hadmissions
  · intro entry he value hcall hres hlast
    rcases h.reached with ⟨labels,hstore⟩
    have huntouched : Untouched disk₀ s.store :=
      run_invariant (fun _ _ _ hp hn => BridgeStore.step_untouched hp hn) hstore fun _ _ => rfl
    exact hquiet.persisted h.reachable huntouched he hcall hres hlast

/-- A debounced set and a snapshot callback its completion handler admits, with a flush
called before either has settled, up to the turn after its second pass. -/
def handlerRun : List Action :=
  [.admitCallback none (some [(BridgeStore.tokenKey,.set [5])]),.flush,
    .start BridgeStore.tokenKey,.resume 1,.start BridgeStore.tokenKey,
    .io BridgeStore.tokenKey .ok,.io BridgeStore.tokenKey .ok,.io BridgeStore.tokenKey .ok,
    .resume 1,.settle 0 true,.admitCallback (some 0) none,.handled 0,.snapshotSettled 2,
    .snapshotTurn 2 false,.settle 3 true,.handled 3,.snapshotSettled 2,.snapshotTurn 2 false,
    .settled 1,.turn 1 false,.snapshotSettled 4,.snapshotTurn 4 false,.settled 1]

theorem flush_quiesces_handler :
    Quiesced BridgeStore.sevens
      (after step (opened BridgeStore.sevens) (handlerRun++[.turn 1 false])) 1 :=
  flush_quiesces (run_after (by decide)) (step_after (by decide)) (by decide) (by decide)

end Baileyrs.FileStoreFlush
