import Baileyrs.JsNumber
import Baileyrs.LabelledRuns

/-!
# Status of the history sync

The dispatcher reports once that the bootstrap is complete and once that the recent
sync is complete or paused. It waits for the pause with one timer, which a terminal
close and the registered cleanup cancel. A chunk that arrives after them arms it
again.
-/

namespace Baileyrs.HistorySync

open LabelledRuns

section Dispatcher

variable {C T M P L : Type}

/-- The sync type of the first chunks after pairing. -/
def INITIAL_BOOTSTRAP : ℤ := 0

/-- The sync type of recent history. -/
def RECENT : ℤ := 3

/-- The sync type of requested history. -/
def ON_DEMAND : ℤ := 6

/-- Progress of the last chunk. -/
def hundred : JsNumber := JsNumber.ofRatio false 100 1

/-- A batch of a history chunk: chats `C`, contacts `T`, messages `M`, past
participants `P` and LID mappings `L`. -/
structure HistoryEvent (C T M P L : Type) where
  /-- Its chats. -/
  chats : List C
  /-- Its contacts. -/
  contacts : List T
  /-- Its messages. -/
  messages : List M
  /-- Its LID mappings. -/
  lidPnMappings : List L
  /-- What is synced. -/
  syncType : Option ℤ
  /-- Progress of the chunk. -/
  progress : Option JsNumber
  /-- Past participants of groups. -/
  pastParticipants : Option (List P)
  /-- Place of the chunk. -/
  chunkOrder : Option JsNumber
  /-- Session of a requested chunk. -/
  peerDataRequestSessionId : Option String
  /-- Whether it ends its chunk; a batch without the flag does. -/
  isFinalBatch : Option Bool

/-- Payload of `messaging-history.set`. -/
structure HistorySet (C T M P L : Type) where
  /-- The chats. -/
  chats : List C
  /-- The contacts. -/
  contacts : List T
  /-- The messages. -/
  messages : List M
  /-- Whether it is the first sync since pairing. -/
  isLatest : Option Bool
  /-- Progress of a whole chunk. -/
  progress : Option JsNumber
  /-- What is synced. -/
  syncType : Option ℤ
  /-- Past participants of groups. -/
  pastParticipants : Option (List P)
  /-- Place of the chunk. -/
  chunkOrder : Option JsNumber
  /-- Session of a requested chunk. -/
  peerDataRequestSessionId : Option String
  /-- LID mappings, when there are any. -/
  lidPnMappings : Option (List L)

/-- How a sync ended. -/
inductive Status where
  | complete
  | paused
  deriving DecidableEq

/-- What the dispatcher does to the outside. -/
inductive Effect (C T M P L : Type) where
  | status (syncType : ℤ) (status : Status) (explicit : Bool)
  | historySet (payload : HistorySet C T M P L)
  | chatsUpsert (chats : List C)
  | connecting
  | close (reason : String) (statusCode : ℕ)
  | onTerminalClose (reason : String) (statusCode : ℕ)

/-- What was reported, and the timer that waits for a pause. -/
structure HistorySyncStatusState where
  /-- The bootstrap was reported. -/
  initialBootstrapComplete : Bool
  /-- The recent sync was reported. -/
  recentSyncComplete : Bool
  /-- Handle of the timer. -/
  pausedTimeout : Option ℕ

/-- The dispatcher and the runtime's timers. The last field only records when the
dispatcher was told to end. -/
structure State (C T M P L : Type) where
  /-- Its status of the sync. -/
  historySync : HistorySyncStatusState
  /-- Handles of armed timers. -/
  timers : List ℕ
  /-- Next unused handle. -/
  fresh : ℕ
  /-- Effects, oldest first. -/
  effects : List (Effect C T M P L)
  /-- Number of effects before the first terminal close or cleanup. -/
  ended : Option ℕ

/-- What happens to the dispatcher. -/
inductive Action (C T M P L : Type) where
  | historySync (event : HistoryEvent C T M P L)
  | fire (timer : ℕ)
  | disconnected (autoReconnect : Bool)
  | terminalClose (reason : String) (statusCode : ℕ)
  | cleanup

/-- A dispatcher before its first event. -/
def initial : State C T M P L := ⟨⟨false,false,none⟩,[],0,[],none⟩

/-- Emit or call. -/
def State.perform (s : State C T M P L) (effect : Effect C T M P L) : State C T M P L :=
  {s with effects := s.effects++[effect]}

/-- Cancel the timer. -/
def clearHistorySyncPausedTimeout (s : State C T M P L) : State C T M P L :=
  {s with
    timers := s.timers.filter fun timer => s.historySync.pausedTimeout ≠ some timer
    historySync := {s.historySync with pausedTimeout := none}}

/-- Record that the dispatcher was told to end. -/
def State.markEnded (s : State C T M P L) : State C T M P L :=
  {s with ended := s.ended.or (some s.effects.length)}

/-- Report a disconnect that is not recovered from; a socket publishes it itself. -/
def emitClose (hasCallback : Bool) (s : State C T M P L) (reason : String) (statusCode : ℕ) : State C T M P L :=
  let s := clearHistorySyncPausedTimeout s.markEnded
  if hasCallback then s.perform (.onTerminalClose reason statusCode) else s.perform (.close reason statusCode)

/-- Whether a batch ends its chunk. -/
def HistoryEvent.isFinal (event : HistoryEvent C T M P L) : Bool := event.isFinalBatch ≠ some false

/-- Report that the bootstrap is complete. -/
def reportBootstrap (s : State C T M P L) (event : HistoryEvent C T M P L) : State C T M P L :=
  if event.isFinal ∧ event.syncType = some INITIAL_BOOTSTRAP ∧ s.historySync.initialBootstrapComplete = false then
    State.perform {s with historySync := {s.historySync with initialBootstrapComplete := true}}
      (.status INITIAL_BOOTSTRAP .complete true)
  else s

/-- Report that the recent sync is complete, or wait for a pause. -/
def reportRecent (s : State C T M P L) (event : HistoryEvent C T M P L) : State C T M P L :=
  if event.isFinal ∧ event.syncType = some RECENT ∧ s.historySync.recentSyncComplete = false then
    let s := clearHistorySyncPausedTimeout s
    if event.progress = some hundred then
      State.perform {s with historySync := {s.historySync with recentSyncComplete := true}}
        (.status RECENT .complete true)
    else
      {s with
        timers := s.timers++[s.fresh]
        fresh := s.fresh+1
        historySync := {s.historySync with pausedTimeout := some s.fresh}}
  else s

/-- Payload made of a batch. -/
def historySet (event : HistoryEvent C T M P L) : HistorySet C T M P L where
  chats := event.chats
  contacts := event.contacts
  messages := event.messages
  isLatest := if event.syncType = some ON_DEMAND then none
    else some (event.syncType = some INITIAL_BOOTSTRAP && event.isFinal)
  progress := if event.isFinal then event.progress else none
  syncType := event.syncType
  pastParticipants := event.pastParticipants
  chunkOrder := event.chunkOrder
  peerDataRequestSessionId := event.peerDataRequestSessionId
  lidPnMappings := if event.lidPnMappings.length > 0 then some event.lidPnMappings else none

/-- Dispatch a history batch. -/
def dispatchHistorySync (s : State C T M P L) (event : HistoryEvent C T M P L) : State C T M P L :=
  let s := reportRecent (reportBootstrap s event) event
  let s := s.perform (.historySet (historySet event))
  if event.chats.length > 0 then s.perform (.chatsUpsert event.chats) else s

/-- The timer fires. -/
def pausedTimer (s : State C T M P L) (timer : ℕ) : State C T M P L :=
  let s := {s with timers := s.timers.filter fun other => other ≠ timer}
  let s := if s.historySync.recentSyncComplete = false then
    State.perform {s with historySync := {s.historySync with recentSyncComplete := true}}
      (.status RECENT .paused false)
  else s
  {s with historySync := {s.historySync with pausedTimeout := none}}

/-- One event; only an armed timer fires. -/
def step (hasCallback : Bool) (s : State C T M P L) : Action C T M P L → Option (State C T M P L)
  | .historySync event => some (dispatchHistorySync s event)
  | .fire timer => if timer ∈ s.timers then some (pausedTimer s timer) else none
  | .disconnected autoReconnect =>
    some (if autoReconnect then s.perform .connecting else emitClose hasCallback s "Connection closed" 428)
  | .terminalClose reason statusCode => some (emitClose hasCallback s reason statusCode)
  | .cleanup => some (clearHistorySyncPausedTimeout s.markEnded)

end Dispatcher

section Reports

variable {C T M P L : Type}

/-- An effect reports a sync type. -/
def reports (syncType : ℤ) : Effect C T M P L → Bool
  | .status other _ _ => other = syncType
  | _ => false

/-- An effect reports a pause. -/
def isPaused : Effect C T M P L → Bool
  | .status _ .paused _ => true
  | _ => false

/-- What holds after any events: each report was made as often as its flag says, and
the handle is that of the only armed timer. -/
structure Reported (s : State C T M P L) : Prop where
  /-- Reports of the bootstrap. -/
  bootstrap : s.effects.countP (reports INITIAL_BOOTSTRAP) = s.historySync.initialBootstrapComplete.toNat
  /-- Reports of the recent sync. -/
  recent : s.effects.countP (reports RECENT) = s.historySync.recentSyncComplete.toNat
  /-- Armed timers. -/
  timers : s.timers = s.historySync.pausedTimeout.toList

/-- An effect that reports nothing. -/
theorem Reported.perform {s : State C T M P L} (h : Reported s) {effect : Effect C T M P L}
    (hquiet : ∀ syncType, reports syncType effect = false) : Reported (s.perform effect) := by
  refine ⟨?_,?_,h.timers⟩
  · rw [State.perform,List.countP_append,List.countP_singleton,hquiet,if_neg Bool.false_ne_true]
    exact h.bootstrap
  · rw [State.perform,List.countP_append,List.countP_singleton,hquiet,if_neg Bool.false_ne_true]
    exact h.recent

/-- No timer is left once it is cancelled. -/
theorem Reported.clear_timers {s : State C T M P L} (h : Reported s) :
    (clearHistorySyncPausedTimeout s).timers = [] := by
  unfold clearHistorySyncPausedTimeout
  rw [h.timers]
  cases s.historySync.pausedTimeout with
  | none => rfl
  | some timer => simp

theorem Reported.clear {s : State C T M P L} (h : Reported s) : Reported (clearHistorySyncPausedTimeout s) :=
  ⟨h.bootstrap,h.recent,h.clear_timers⟩

theorem Reported.close {s : State C T M P L} (h : Reported s) (hasCallback : Bool) (reason : String)
    (statusCode : ℕ) : Reported (emitClose hasCallback s reason statusCode) := by
  have hmarked : Reported s.markEnded := ⟨h.bootstrap,h.recent,h.timers⟩
  unfold emitClose
  dsimp only
  split
  · exact hmarked.clear.perform fun _ => rfl
  · exact hmarked.clear.perform fun _ => rfl

theorem Reported.reportBootstrap {s : State C T M P L} (h : Reported s) (event : HistoryEvent C T M P L) :
    Reported (reportBootstrap s event) := by
  unfold HistorySync.reportBootstrap
  split
  · rename_i hfirst
    refine ⟨?_,?_,h.timers⟩
    · rw [State.perform,List.countP_append,h.bootstrap,hfirst.2.2]
      rfl
    · rw [State.perform,List.countP_append,h.recent]
      rfl
  · exact h

theorem Reported.reportRecent {s : State C T M P L} (h : Reported s) (event : HistoryEvent C T M P L) :
    Reported (reportRecent s event) := by
  unfold HistorySync.reportRecent
  split
  · rename_i hfirst
    have hclear := h.clear
    dsimp only
    split
    · refine ⟨?_,?_,hclear.timers⟩
      · rw [State.perform,List.countP_append,hclear.bootstrap]
        rfl
      · have hnone : (clearHistorySyncPausedTimeout s).historySync.recentSyncComplete = false := hfirst.2.2
        rw [State.perform,List.countP_append,hclear.recent,hnone]
        rfl
    · refine ⟨hclear.bootstrap,hclear.recent,?_⟩
      dsimp only
      rw [h.clear_timers]
      rfl
  · exact h

theorem Reported.dispatch {s : State C T M P L} (h : Reported s) (event : HistoryEvent C T M P L) :
    Reported (dispatchHistorySync s event) := by
  have hset : Reported (State.perform _ (.historySet (historySet event))) :=
    ((h.reportBootstrap event).reportRecent event).perform fun _ => rfl
  unfold dispatchHistorySync
  dsimp only
  split
  · exact hset.perform fun _ => rfl
  · exact hset

theorem Reported.paused {s : State C T M P L} (h : Reported s) {timer : ℕ} (harmed : timer ∈ s.timers) :
    Reported (pausedTimer s timer) := by
  have hnone : s.timers.filter (fun other => other ≠ timer) = [] := by
    have htimers := h.timers
    cases hhandle : s.historySync.pausedTimeout with
    | none =>
      rw [hhandle] at htimers
      rw [htimers]
      rfl
    | some handle =>
      rw [hhandle] at htimers
      rw [htimers] at harmed ⊢
      rw [List.mem_singleton.mp harmed]
      simp
  unfold pausedTimer
  dsimp only
  split
  · rename_i hfirst
    refine ⟨?_,?_,hnone⟩
    · rw [State.perform]
      dsimp only
      rw [List.countP_append,h.bootstrap]
      rfl
    · rw [State.perform]
      dsimp only
      rw [List.countP_append,h.recent,hfirst]
      rfl
  · exact ⟨h.bootstrap,h.recent,hnone⟩

/-- Every event keeps it. -/
theorem Reported.step {hasCallback : Bool} {s next : State C T M P L} {action : Action C T M P L}
    (h : Reported s) (hstep : step hasCallback s action = some next) : Reported next := by
  cases action with
  | historySync event =>
    cases hstep
    exact h.dispatch event
  | fire timer =>
    rw [HistorySync.step] at hstep
    split at hstep
    · rename_i harmed
      cases hstep
      exact h.paused harmed
    · cases hstep
  | disconnected autoReconnect =>
    cases hstep
    split
    · exact h.perform fun _ => rfl
    · exact h.close hasCallback _ _
  | terminalClose reason statusCode =>
    cases hstep
    exact h.close hasCallback reason statusCode
  | cleanup =>
    cases hstep
    have hmarked : Reported s.markEnded := ⟨h.bootstrap,h.recent,h.timers⟩
    exact hmarked.clear

end Reports

section Ending

variable {C T M P L : Type}

/-- No pause is reported once the dispatcher was told to end. -/
def NoLatePause (s : State C T M P L) : Prop :=
  ∀ n, s.ended = some n → ∀ effect ∈ s.effects.drop n, isPaused effect = false

/-- A batch arms the timer: it ends a chunk of the recent sync that is not the last
one, and nothing was reported yet. -/
def Arms (s : State C T M P L) (event : HistoryEvent C T M P L) : Prop :=
  event.isFinal = true ∧ event.syncType = some RECENT ∧ s.historySync.recentSyncComplete = false ∧
    event.progress ≠ some hundred

/-- No batch arms the timer of a dispatcher that was told to end. -/
def Timely (s : State C T M P L) (action : Action C T M P L) : Prop :=
  ∀ event, action = .historySync event → s.ended ≠ none → ¬Arms s event

/-- What timely events keep: after the end no timer is armed and no pause reported. -/
structure Quiet (s : State C T M P L) : Prop where
  /-- No timer is armed. -/
  timers : s.ended ≠ none → s.timers = []
  /-- The end is in the past. -/
  past : ∀ n, s.ended = some n → n ≤ s.effects.length
  /-- No pause was reported since. -/
  noPause : NoLatePause s

/-- Further effects without a pause. -/
theorem Quiet.perform {s : State C T M P L} (h : Quiet s) {effect : Effect C T M P L}
    (hquiet : isPaused effect = false) : Quiet (s.perform effect) := by
  refine ⟨h.timers,fun n hn => ?_,fun n hn other hother => ?_⟩
  · have hle := h.past n hn
    rw [State.perform,List.length_append]
    omega
  · have hle := h.past n hn
    rw [State.perform] at hother
    dsimp only at hother
    rw [List.drop_append_of_le_length hle] at hother
    rcases List.mem_append.mp hother with hother | hother
    · exact h.noPause n hn other hother
    · rw [List.mem_singleton.mp hother]
      exact hquiet

theorem Quiet.clear {s : State C T M P L} (h : Quiet s) : Quiet (clearHistorySyncPausedTimeout s) := by
  refine ⟨fun hended => ?_,h.past,h.noPause⟩
  rw [clearHistorySyncPausedTimeout,h.timers hended]
  rfl

/-- Told to end, the dispatcher has no timer left. -/
theorem Quiet.end {s : State C T M P L} (h : Quiet s) (hr : Reported s) :
    Quiet (clearHistorySyncPausedTimeout s.markEnded) := by
  have hmarked : Reported s.markEnded := ⟨hr.bootstrap,hr.recent,hr.timers⟩
  have hended : ∀ n, s.markEnded.ended = some n → s.ended = some n ∨ n = s.effects.length := by
    intro n hn
    rw [State.markEnded] at hn
    cases hbefore : s.ended with
    | none =>
      rw [hbefore] at hn
      exact .inr (Option.some.inj hn).symm
    | some m =>
      rw [hbefore] at hn
      exact .inl hn
  refine ⟨fun _ => hmarked.clear_timers,fun n hn => ?_,fun n hn effect heffect => ?_⟩
  · rcases hended n hn with hbefore | rfl
    · exact h.past n hbefore
    · exact Nat.le_refl _
  · rcases hended n hn with hbefore | rfl
    · exact h.noPause n hbefore effect heffect
    · have hnone : s.effects.drop s.effects.length = [] := List.drop_length
      rw [clearHistorySyncPausedTimeout,State.markEnded] at heffect
      dsimp only at heffect
      rw [hnone] at heffect
      cases heffect

theorem Quiet.close {s : State C T M P L} (h : Quiet s) (hr : Reported s) (hasCallback : Bool)
    (reason : String) (statusCode : ℕ) : Quiet (emitClose hasCallback s reason statusCode) := by
  unfold emitClose
  dsimp only
  split
  · exact (h.end hr).perform rfl
  · exact (h.end hr).perform rfl

/-- A timely batch reports no pause and leaves no timer after the end. -/
theorem Quiet.dispatch {s : State C T M P L} (h : Quiet s) {event : HistoryEvent C T M P L}
    (htimely : s.ended ≠ none → ¬Arms s event) : Quiet (dispatchHistorySync s event) := by
  have hboot : Quiet (reportBootstrap s event) := by
    unfold reportBootstrap
    split
    · have hflag : Quiet {s with historySync := {s.historySync with initialBootstrapComplete := true}} :=
        ⟨h.timers,h.past,h.noPause⟩
      exact hflag.perform rfl
    · exact h
  have hsame : (reportBootstrap s event).ended = s.ended ∧
      (reportBootstrap s event).historySync.recentSyncComplete = s.historySync.recentSyncComplete := by
    unfold reportBootstrap
    split
    · exact ⟨rfl,rfl⟩
    · exact ⟨rfl,rfl⟩
  have hrecent : Quiet (reportRecent (reportBootstrap s event) event) := by
    unfold reportRecent
    split
    · rename_i hfirst
      have hclear := hboot.clear
      dsimp only
      split
      · have hflag : Quiet {clearHistorySyncPausedTimeout (reportBootstrap s event) with
            historySync := {(clearHistorySyncPausedTimeout (reportBootstrap s event)).historySync with
              recentSyncComplete := true}} := ⟨hclear.timers,hclear.past,hclear.noPause⟩
        exact hflag.perform rfl
      · rename_i hprogress
        refine ⟨fun hended => ?_,hclear.past,hclear.noPause⟩
        have hbefore : s.ended ≠ none := by
          rw [← hsame.1]
          exact hended
        exact absurd ⟨hfirst.1,hfirst.2.1,hsame.2.symm.trans hfirst.2.2,hprogress⟩ (htimely hbefore)
    · exact hboot
  have hset : Quiet (State.perform _ (.historySet (historySet event))) := hrecent.perform rfl
  unfold dispatchHistorySync
  dsimp only
  split
  · exact hset.perform rfl
  · exact hset

/-- A timer fires only before the end. -/
theorem Quiet.paused {s : State C T M P L} (h : Quiet s) {timer : ℕ} (harmed : timer ∈ s.timers) :
    Quiet (pausedTimer s timer) := by
  have hnone : s.ended = none := by
    by_contra hended
    rw [h.timers hended] at harmed
    cases harmed
  have hended : (pausedTimer s timer).ended = none := by
    unfold pausedTimer
    dsimp only
    split
    · exact hnone
    · exact hnone
  have hno : ∀ n, (pausedTimer s timer).ended ≠ some n := by
    intro n hn
    rw [hended] at hn
    cases hn
  exact ⟨fun hsome => absurd hended hsome,fun n hn => absurd hn (hno n),fun n hn => absurd hn (hno n)⟩

/-- Timely events keep it. -/
theorem Quiet.step {hasCallback : Bool} {s next : State C T M P L} {action : Action C T M P L}
    (h : Quiet s) (hr : Reported s) (htimely : Timely s action)
    (hstep : step hasCallback s action = some next) : Quiet next := by
  cases action with
  | historySync event =>
    cases hstep
    exact h.dispatch (htimely event rfl)
  | fire timer =>
    rw [HistorySync.step] at hstep
    split at hstep
    · rename_i harmed
      cases hstep
      exact h.paused harmed
    · cases hstep
  | disconnected autoReconnect =>
    cases hstep
    split
    · exact h.perform rfl
    · exact h.close hr hasCallback _ _
  | terminalClose reason statusCode =>
    cases hstep
    exact h.close hr hasCallback reason statusCode
  | cleanup =>
    cases hstep
    exact h.end hr

theorem reported_initial : Reported (initial : State C T M P L) := ⟨rfl,rfl,rfl⟩

theorem quiet_initial : Quiet (initial : State C T M P L) :=
  ⟨fun h => absurd rfl h,fun n h => (by cases h),fun n h => (by cases h)⟩

/-- A batch that arms the timer leaves it armed. -/
theorem arms_armed {s : State C T M P L} {event : HistoryEvent C T M P L} (h : Arms s event) :
    s.fresh ∈ (dispatchHistorySync s event).timers ∧
    (dispatchHistorySync s event).historySync.recentSyncComplete = false ∧
    (dispatchHistorySync s event).ended = s.ended ∧
    s.effects.length ≤ (dispatchHistorySync s event).effects.length := by
  have hbootstrap : event.syncType ≠ some INITIAL_BOOTSTRAP := by
    rw [h.2.1]
    decide
  have hboot : reportBootstrap s event = s := if_neg fun hfirst => hbootstrap hfirst.2.1
  have hrecent : reportRecent s event = {clearHistorySyncPausedTimeout s with
      timers := (clearHistorySyncPausedTimeout s).timers++[s.fresh]
      fresh := s.fresh+1
      historySync := {s.historySync with pausedTimeout := some s.fresh}} := by
    unfold reportRecent
    rw [if_pos ⟨h.1,h.2.1,h.2.2.1⟩]
    dsimp only
    rw [if_neg h.2.2.2]
    rfl
  unfold dispatchHistorySync
  rw [hboot,hrecent]
  dsimp only
  split
  · refine ⟨List.mem_append_right _ List.mem_cons_self,h.2.2.1,rfl,?_⟩
    simp only [State.perform,clearHistorySyncPausedTimeout,List.length_append]
    omega
  · refine ⟨List.mem_append_right _ List.mem_cons_self,h.2.2.1,rfl,?_⟩
    simp only [State.perform,clearHistorySyncPausedTimeout,List.length_append]
    omega

/-- If the timer is armed after the end, its firing reports a late pause. -/
theorem arms_late {hasCallback : Bool} {s : State C T M P L} {event : HistoryEvent C T M P L}
    (hquiet : Quiet s) (hended : s.ended ≠ none) (h : Arms s event) :
    ∃ last, run (step hasCallback) s [.historySync event,.fire s.fresh] = some last ∧ ¬NoLatePause last := by
  obtain ⟨harmed,hfirst,hsame,hlength⟩ := arms_armed h
  obtain ⟨n,hn⟩ := Option.ne_none_iff_exists'.mp hended
  refine ⟨pausedTimer (dispatchHistorySync s event) s.fresh,?_,fun hno => ?_⟩
  · rw [run_cons,step]
    dsimp only [Option.bind]
    rw [run_cons,step,if_pos harmed]
    rfl
  · have heffects : (pausedTimer (dispatchHistorySync s event) s.fresh).effects =
        (dispatchHistorySync s event).effects++[.status RECENT .paused false] := by
      unfold pausedTimer
      dsimp only
      rw [if_pos hfirst]
      rfl
    have hlast : (pausedTimer (dispatchHistorySync s event) s.fresh).ended = some n := by
      unfold pausedTimer
      dsimp only
      rw [if_pos hfirst]
      exact hsame.trans hn
    have hpast := hquiet.past n hn
    have hmem : Effect.status RECENT .paused false ∈
        (pausedTimer (dispatchHistorySync s event) s.fresh).effects.drop n := by
      rw [heffects,List.drop_append_of_le_length (hpast.trans hlength)]
      exact List.mem_append_right _ List.mem_cons_self
    have hquiet := hno n hlast _ hmem
    cases hquiet

/-- Whatever happens in whatever order, each of the two syncs is reported at most once
and at most one timer is armed. When no batch arms the timer of a dispatcher that was
told to end, no pause is reported after the end; where the first one does, its timer
reports one. -/
theorem history_status_exact (hasCallback : Bool) {actions : List (Action C T M P L)} {last : State C T M P L}
    (hrun : run (step hasCallback) initial actions = some last) :
    last.effects.countP (reports RECENT) ≤ 1 ∧ last.effects.countP (reports INITIAL_BOOTSTRAP) ≤ 1 ∧
    last.timers.length ≤ 1 ∧
    (Guarded (step hasCallback) Timely initial actions → NoLatePause last ∧
      ∀ event, last.ended ≠ none → Arms last event →
        ∃ late, run (step hasCallback) last [.historySync event,.fire last.fresh] = some late ∧
          ¬NoLatePause late) := by
  have hreported : Reported last :=
    run_invariant (fun s action next h hstep => Reported.step h hstep) hrun reported_initial
  refine ⟨?_,?_,?_,fun hguarded => ?_⟩
  · rw [hreported.recent]
    exact Bool.toNat_le _
  · rw [hreported.bootstrap]
    exact Bool.toNat_le _
  · rw [hreported.timers]
    cases last.historySync.pausedTimeout with
    | none => exact Nat.zero_le _
    | some timer => exact Nat.le_refl _
  · have hboth : Reported last ∧ Quiet last := by
      refine run_guarded_invariant (P := fun s => Reported s ∧ Quiet s) ?_ hguarded hrun
        ⟨reported_initial,quiet_initial⟩
      exact fun s action next h htimely hstep => ⟨h.1.step hstep,h.2.step h.1 htimely hstep⟩
    exact ⟨hboth.2.noPause,fun event hended harms => arms_late hboth.2 hended harms⟩

/-- A chunk of the recent sync that is half done. -/
def halfDone : HistoryEvent Unit Unit Unit Unit Unit :=
  ⟨[],[],[],[],some RECENT,some (JsNumber.ofRatio false 50 1),none,none,none,none⟩

/-- It arms the timer of a new dispatcher. -/
theorem arms_halfDone : Arms (initial : State Unit Unit Unit Unit Unit) halfDone := by
  refine ⟨rfl,rfl,rfl,?_⟩
  decide

/-- A timer that is armed before the end is cancelled. -/
theorem history_status_exact_cancelled :
    ∃ last, run (step true) (initial : State Unit Unit Unit Unit Unit) [.historySync halfDone,.cleanup] =
      some last ∧ last.timers.length ≤ 1 ∧ NoLatePause last := by
  have hrun : run (step true) (initial : State Unit Unit Unit Unit Unit) [.historySync halfDone,.cleanup] =
      some (clearHistorySyncPausedTimeout (dispatchHistorySync initial halfDone).markEnded) := rfl
  have hexact := history_status_exact true hrun
  have hguarded : Guarded (step true) Timely (initial : State Unit Unit Unit Unit Unit)
      [.historySync halfDone,.cleanup] := by
    refine ⟨fun event _ hended => absurd rfl hended,fun next _ => ⟨fun event hevent => ?_,fun _ _ => trivial⟩⟩
    cases hevent
  exact ⟨_,hrun,hexact.2.2.1,(hexact.2.2.2 hguarded).1⟩

/-- A chunk after a terminal close arms the timer, and its pause is reported. -/
theorem history_status_late : ∃ last, run (step true) (initial : State Unit Unit Unit Unit Unit)
    [.terminalClose "Connection replaced" 440,.historySync halfDone,.fire 0] = some last ∧ ¬NoLatePause last := by
  have hended : run (step true) (initial : State Unit Unit Unit Unit Unit)
      [.terminalClose "Connection replaced" 440] = some (emitClose true initial "Connection replaced" 440) := rfl
  have hquiet : Quiet (emitClose true (initial : State Unit Unit Unit Unit Unit) "Connection replaced" 440) :=
    quiet_initial.close reported_initial true _ _
  have hlate : ∃ last, run (step true) (emitClose true (initial : State Unit Unit Unit Unit Unit)
      "Connection replaced" 440) [.historySync halfDone,.fire 0] = some last ∧ ¬NoLatePause last :=
    arms_late hquiet (fun h => by cases h) arms_halfDone
  obtain ⟨last,hlast,hpause⟩ := hlate
  refine ⟨last,?_,hpause⟩
  have happend := @run_append _ _ (step true) (initial : State Unit Unit Unit Unit Unit)
    [.terminalClose "Connection replaced" 440] [.historySync halfDone,.fire 0]
  rw [hended] at happend
  exact happend.trans hlast

end Ending

end Baileyrs.HistorySync
